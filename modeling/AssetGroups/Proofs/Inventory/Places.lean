import AssetGroups.Proofs.Inventory.Queries
import Mathlib.Logic.Relation

/-!
# What lies below a place

The search below the matching places, one after the other into one set, finds exactly the assets that
have such a place above them, however many steps above. What was found before is not followed again;
this loses nothing, since whatever is found and not on the stack has all of its children found.
-/

namespace AssetGroups

namespace Inventory

variable {inv : Inventory} {m : TextMatch}

/-- The asset with the id `p` is the parent of the one with the id `c`. -/
def IsParent (inv : Inventory) (p c : Nat) : Prop := inv.parentOf? c = some p

def IsPlace (inv : Inventory) (m : TextMatch) (id : Nat) : Prop :=
  ∃ a ∈ inv.assets, a.id = id ∧ a.kind = .location ∧ m.accepts a.name = true

/-- A place whose internal name matches stands somewhere above the asset with the id. -/
def LiesBelow (inv : Inventory) (m : TextMatch) (id : Nat) : Prop :=
  ∃ place, inv.IsPlace m place ∧ Relation.TransGen inv.IsParent place id

theorem liesBelow_iff {id : Nat} :
    inv.LiesBelow m id ↔ ∃ p, inv.parentOf? id = some p ∧ (inv.IsPlace m p ∨ inv.LiesBelow m p) := by
  constructor
  · rintro ⟨place, hplace, htrans⟩
    obtain ⟨p, hto, hp⟩ := Relation.TransGen.tail'_iff.mp htrans
    rcases Relation.reflTransGen_iff_eq_or_transGen.mp hto with rfl | hto
    · exact ⟨p, hp, Or.inl hplace⟩
    · exact ⟨p, hp, Or.inr ⟨place, hplace, hto⟩⟩
  · rintro ⟨p, hp, hplace | ⟨place, hplace, hto⟩⟩
    · exact ⟨p, hplace, .single hp⟩
    · exact ⟨place, hplace, hto.tail hp⟩

theorem Numbered.exists_asset (h : inv.Numbered) {id : Nat} (hid : inv.LiesBelow m id) :
    ∃ a ∈ inv.assets, a.id = id := by
  obtain ⟨p, hp, -⟩ := liesBelow_iff.mp hid
  obtain ⟨a, ha, hid, -⟩ := h.parentOf?_eq_some.mp hp
  exact ⟨a, ha, hid⟩

/-! ## The search -/

/-- The asset with the id `c` is listed as a child of the one with the id `p`. -/
def IsChild (inv : Inventory) (p c : Nat) : Prop := c ∈ inv.children.find p

theorem mem_pushNew {children stack : List Nat} {found : IdSet} {x : Nat} :
    x ∈ (pushNew children stack found).2 ↔ x ∈ children ∨ x ∈ found := by
  induction children generalizing stack found with
  | nil => simp [pushNew]
  | cons c children ih =>
      rw [pushNew]
      split
      · grind
      · rw [ih, IdSet.mem_insert]
        grind

theorem mem_stack_pushNew {children stack : List Nat} {found : IdSet} {x : Nat} :
    x ∈ (pushNew children stack found).1 ↔ x ∈ stack ∨ (x ∈ children ∧ x ∉ found) := by
  induction children generalizing stack found with
  | nil => simp [pushNew]
  | cons c children ih =>
      rw [pushNew]
      split
      · grind
      · rw [ih, IdSet.mem_insert]
        grind

/-- Whatever is found has its children found too, unless it is still on the stack. -/
def Closed (inv : Inventory) (stack : List Nat) (found : IdSet) : Prop :=
  ∀ x ∈ found, x ∉ stack → ∀ c, inv.IsChild x c → c ∈ found

theorem Closed.pushNew {id : Nat} {stack : List Nat} {found : IdSet}
    (h : inv.Closed (id :: stack) found) :
    inv.Closed (pushNew (inv.children.find id) stack found).1
      (pushNew (inv.children.find id) stack found).2 := by
  intro x hx hstack c hc
  rw [mem_pushNew] at hx ⊢
  simp only [mem_stack_pushNew, not_or, not_and, not_not] at hstack
  obtain ⟨hx', hchild⟩ := hstack
  by_cases hid : x = id
  · exact .inl (hid ▸ hc)
  · have hfound : x ∈ found := hx.elim hchild fun hx => hx
    exact .inr (h x hfound (by simp [hid, hx']) c hc)

theorem mem_descend_of_mem {stack : List Nat} {found : IdSet} {x : Nat} (hx : x ∈ found) :
    x ∈ inv.descend stack found := by
  fun_induction descend inv stack found with
  | case1 => exact hx
  | case2 id stack found next ih => exact ih (mem_pushNew.mpr (.inr hx))

/-- Nothing is found but what lies below the stack. -/
theorem of_mem_descend {stack : List Nat} {found : IdSet} {x : Nat}
    (hx : x ∈ inv.descend stack found) :
    x ∈ found ∨ ∃ root ∈ stack, Relation.TransGen inv.IsChild root x := by
  fun_induction descend inv stack found with
  | case1 => exact .inl hx
  | case2 id stack found next ih =>
      have hid : ∀ c, c ∈ inv.children.find id → Relation.TransGen inv.IsChild id c :=
        fun c hc => .single hc
      rcases ih hx with hx | ⟨root, hroot, hto⟩
      · rcases mem_pushNew.mp hx with hx | hx
        · exact .inr ⟨id, List.mem_cons_self, hid x hx⟩
        · exact .inl hx
      · rcases mem_stack_pushNew.mp hroot with hroot | ⟨hroot, -⟩
        · exact .inr ⟨root, List.mem_cons_of_mem _ hroot, hto⟩
        · exact .inr ⟨id, List.mem_cons_self, (hid root hroot).trans hto⟩

theorem closed_descend {stack : List Nat} {found : IdSet} (h : inv.Closed stack found) :
    inv.Closed [] (inv.descend stack found) := by
  fun_induction descend inv stack found with
  | case1 => exact h
  | case2 id stack found next ih => exact ih h.pushNew

theorem child_mem_descend {stack : List Nat} {found : IdSet} {root c : Nat}
    (h : inv.Closed stack found) (hroot : root ∈ stack) (hc : inv.IsChild root c) :
    c ∈ inv.descend stack found := by
  fun_induction descend inv stack found with
  | case1 => simp at hroot
  | case2 id stack found next ih =>
      rcases List.mem_cons.mp hroot with rfl | hroot
      · exact mem_descend_of_mem (mem_pushNew.mpr (.inl hc))
      · exact ih h.pushNew (mem_stack_pushNew.mpr (.inl hroot))

/-- A search that starts from a set with all children in it adds what lies below the root. -/
theorem mem_descend {root : Nat} {found : IdSet} (h : inv.Closed [] found) {x : Nat} :
    x ∈ inv.descend [root] found ↔ x ∈ found ∨ Relation.TransGen inv.IsChild root x := by
  have hstart : inv.Closed [root] found := fun x hx _ => h x hx List.not_mem_nil
  constructor
  · intro hx
    rcases of_mem_descend hx with hx | ⟨root', hroot, hto⟩
    · exact .inl hx
    · exact .inr (List.mem_singleton.mp hroot ▸ hto)
  · rintro (hx | hto)
    · exact mem_descend_of_mem hx
    · induction hto with
      | single hc => exact child_mem_descend hstart List.mem_cons_self hc
      | tail _ hc ih => exact closed_descend hstart _ ih List.not_mem_nil _ hc

theorem closed_foldl_descend (places : List Asset) {found : IdSet} (h : inv.Closed [] found) :
    (inv.Closed [] (places.foldl (fun found place => inv.descend [place.id] found) found)) ∧
    ∀ x, x ∈ places.foldl (fun found place => inv.descend [place.id] found) found ↔
      x ∈ found ∨ ∃ place ∈ places, Relation.TransGen inv.IsChild place.id x := by
  induction places generalizing found with
  | nil => simpa using h
  | cons place places ih =>
      have hnext : inv.Closed [] (inv.descend [place.id] found) :=
        closed_descend fun x hx _ => h x hx List.not_mem_nil
      refine ⟨(ih hnext).1, fun x => ?_⟩
      rw [List.foldl_cons, (ih hnext).2, mem_descend h]
      simp only [List.mem_cons, exists_eq_or_imp, or_assoc]

theorem mem_below {x : Nat} :
    x ∈ inv.below m ↔ ∃ place, inv.IsPlace m place ∧ Relation.TransGen inv.IsChild place x := by
  rw [below, (closed_foldl_descend _ fun x hx => absurd hx IdSet.not_mem_empty).2]
  simp only [IdSet.not_mem_empty, false_or, List.mem_filter, Bool.and_eq_true, beq_iff_eq]
  constructor
  · rintro ⟨place, ⟨hmem, hkind, hm⟩, hto⟩
    exact ⟨place.id, ⟨place, hmem, rfl, hkind, hm⟩, hto⟩
  · rintro ⟨_, ⟨place, hmem, rfl, hkind, hm⟩, hto⟩
    exact ⟨place, ⟨hmem, hkind, hm⟩, hto⟩

theorem Numbered.mem_below (h : inv.Numbered) {x : Nat} : x ∈ inv.below m ↔ inv.LiesBelow m x := by
  have hchild : inv.IsChild = inv.IsParent := by
    funext p c
    exact propext h.mem_children
  rw [Inventory.mem_below, hchild, LiesBelow]

theorem Numbered.mem_byLocation (h : inv.Numbered) {a : Asset} (ha : a ∈ inv.assets) :
    a.id ∈ inv.byLocation m ↔
      inv.LiesBelow m a.id ∨ ∃ host, a.host = some host ∧ inv.LiesBelow m host := by
  rw [byLocation, IdSet.mem_union, h.mem_below, h.id_mem_select ha, Option.any_eq_true]
  simp only [decide_eq_true_eq, h.mem_below]

theorem Numbered.knows_byLocation (h : inv.Numbered) : inv.Knows (inv.byLocation m) := by
  intro x hx
  rw [byLocation, IdSet.mem_union, h.mem_below] at hx
  rcases hx with hx | hx
  · exact h.exists_asset hx
  · exact knows_select _ x hx

end Inventory

end AssetGroups
