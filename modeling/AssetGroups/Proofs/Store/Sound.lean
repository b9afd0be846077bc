import AssetGroups.Rule.Check
import AssetGroups.Store.Database
import Mathlib.Data.List.Nodup

/-!
# Sound contents

What holds of every content that jobs leave behind: all groups have ids, in ascending order and never
past the counter, no two of them share a name, and each passes its check.
-/

namespace AssetGroups

/-- Once its name is not blank, a group passes its check when its rules do. -/
theorem Group.check_eq_ok {g : Group} :
    g.check = .ok () ↔ Text.allBlank g.name.toList = false ∧ g.rules.check = .ok () := by
  have hempty : g.isEmpty = true → g.rules.check ≠ .ok () := by
    intro h hcheck
    simp only [isEmpty, RuleSet.isEmpty, Bool.and_eq_true, List.isEmpty_iff] at h
    simp [RuleSet.check, RuleSet.toRule, Rule.check, Connective.check, h.2.2] at hcheck
  unfold check
  by_cases h : g.isEmpty = true
  · simp [h, hempty h]
  · cases hname : Text.allBlank g.name.toList <;> simp [h]

/-- A check looks at the id of a group only to tell whether anything was filled in. -/
theorem Group.check_withId {g : Group} (h : g.check = .ok ()) (id : Option Nat) :
    ({ g with id := id } : Group).check = .ok () := by
  obtain ⟨hname, hrules⟩ := check_eq_ok.mp h
  exact check_eq_ok.mpr ⟨hname, hrules⟩

namespace Database

/-- No group has an id past the counter. -/
def Bounded (db : Database) : Prop := ∀ id ∈ db.ids, id ≤ db.lastId

structure Sound (db : Database) : Prop where
  numbered : db.groups.map (·.id) = db.ids.map some
  ascending : db.ids.Pairwise (· < ·)
  bounded : ∀ id ∈ db.ids, 0 < id ∧ id ≤ db.lastId
  distinct : (db.groups.map (·.name)).Nodup
  checked : ∀ g ∈ db.groups, g.check = .ok ()

theorem sound_nil (last : Nat) : Sound ⟨last, []⟩ where
  numbered := rfl
  ascending := List.Pairwise.nil
  bounded := by simp [ids]
  distinct := List.nodup_nil
  checked := by simp

theorem sound_empty : Sound {} := sound_nil 0

variable {db : Database}

theorem mem_ids {id : Nat} : id ∈ db.ids ↔ ∃ g ∈ db.groups, g.id = some id := by
  simp [ids]

theorem list_ids (db : Database) : db.list.map (·.id) = db.ids := by
  simp [list, ids, List.map_filterMap, Function.comp_def]

theorem byId_eq_ok {id : Nat} {g : Group} : db.byId id = .ok g ↔ db.byId? id = some g := by
  unfold byId
  cases db.byId? id <;> simp

theorem byId_eq_error {id : Nat} {e : GroupError} :
    db.byId id = .error e ↔ db.byId? id = none ∧ e = .noGroupWithId id := by
  unfold byId
  cases db.byId? id <;> simp [eq_comm]

theorem id_of_byId? {id : Nat} {g : Group} (h : db.byId? id = some g) : g.id = some id := by
  simpa using List.find?_some h

theorem find?_eq_some_of_nodup {κ : Type} [BEq κ] [LawfulBEq κ] {key : Group → κ}
    {groups : List Group} (hnodup : (groups.map key).Nodup) {k : κ} {g : Group} :
    groups.find? (key · == k) = some g ↔ g ∈ groups ∧ key g = k := by
  constructor
  · intro hfind
    exact ⟨List.mem_of_find?_eq_some hfind, by simpa using List.find?_some hfind⟩
  · rintro ⟨hg, hkey⟩
    cases hfind : groups.find? (key · == k) with
    | none =>
        have := List.find?_eq_none.mp hfind g hg
        simp [hkey] at this
    | some g' =>
        have hkey' : key g' = k := by simpa using List.find?_some hfind
        rw [List.inj_on_of_nodup_map hnodup (List.mem_of_find?_eq_some hfind) hg
          (hkey'.trans hkey.symm)]

theorem replaceFirst_eq_map (id : Nat) (g : Group) : ∀ {groups : List Group},
    (groups.map (·.id)).Nodup →
    replaceFirst id g groups = groups.map fun h => if h.id = some id then g else h
  | [], _ => rfl
  | h :: hs, hnodup => by
      rw [List.map_cons, List.nodup_cons] at hnodup
      rw [replaceFirst, List.map_cons]
      split
      · rename_i hid
        congr 1
        have hother : ∀ h' ∈ hs, (if h'.id = some id then g else h') = h' := by
          intro h' hh'
          refine if_neg fun hid' => hnodup.1 ?_
          rw [hid, ← hid']
          exact List.mem_map_of_mem hh'
        rw [List.map_congr_left hother, List.map_id']
      · rw [replaceFirst_eq_map id g hnodup.2]

/-- The group takes the place of one with the same id. -/
theorem map_id_replaceFirst {id : Nat} {g : Group} (hid : g.id = some id) (groups : List Group) :
    (replaceFirst id g groups).map (·.id) = groups.map (·.id) := by
  induction groups with
  | nil => rfl
  | cons h hs ih =>
      rw [replaceFirst]
      split
      · rename_i hh
        rw [List.map_cons, List.map_cons, hid, hh]
      · rw [List.map_cons, List.map_cons, ih]

theorem ids_replaceFirst (db : Database) {id : Nat} {g : Group} (hid : g.id = some id) :
    ids { db with groups := replaceFirst id g db.groups } = db.ids := by
  have hids : ∀ groups : List Group,
      groups.filterMap (·.id) = (groups.map (·.id)).filterMap fun i => i := by
    intro groups
    rw [List.filterMap_map]
    rfl
  rw [ids, ids, hids, hids, map_id_replaceFirst hid]

theorem mem_replaceFirst {id : Nat} {g h : Group} (hid : g.id = some id) {groups : List Group}
    (hmem : h ∈ replaceFirst id g groups) : ∃ h' ∈ groups, h'.id = h.id := by
  induction groups with
  | nil => cases hmem
  | cons first rest ih =>
      rw [replaceFirst] at hmem
      split at hmem
      · rename_i hfirst
        rcases List.mem_cons.mp hmem with rfl | hmem
        · exact ⟨first, List.mem_cons_self, hfirst.trans hid.symm⟩
        · exact ⟨h, List.mem_cons_of_mem _ hmem, rfl⟩
      · rcases List.mem_cons.mp hmem with rfl | hmem
        · exact ⟨h, List.mem_cons_self, rfl⟩
        · obtain ⟨h', hh', heq⟩ := ih hmem
          exact ⟨h', List.mem_cons_of_mem _ hh', heq⟩

theorem eq_or_mem_of_mem_replaceFirst {id : Nat} {g h : Group} {groups : List Group}
    (hmem : h ∈ replaceFirst id g groups) : h = g ∨ h ∈ groups := by
  induction groups with
  | nil => cases hmem
  | cons first rest ih =>
      rw [replaceFirst] at hmem
      split at hmem
      · exact (List.mem_cons.mp hmem).imp_right (List.mem_cons_of_mem first)
      · rcases List.mem_cons.mp hmem with rfl | hmem
        · exact Or.inr List.mem_cons_self
        · exact (ih hmem).imp_right (List.mem_cons_of_mem first)

/-- The first group with the id makes place for the new one, whatever else is stored. -/
theorem find?_replaceFirst_self {id : Nat} {g : Group} (hid : g.id = some id) {groups : List Group}
    (hstored : ∃ h ∈ groups, h.id = some id) :
    (replaceFirst id g groups).find? (·.id == some id) = some g := by
  induction groups with
  | nil => simp at hstored
  | cons first rest ih =>
      rw [replaceFirst]
      by_cases hfirst : first.id = some id
      · simp [hfirst, hid]
      · have hrest : ∃ h ∈ rest, h.id = some id := by simpa [hfirst] using hstored
        simp [hfirst, ih hrest]

theorem find?_replaceFirst_of_ne {id other : Nat} {g : Group} (hid : g.id = some id) (hne : other ≠ id)
    (groups : List Group) : (replaceFirst id g groups).find? (·.id == some other) =
      groups.find? (·.id == some other) := by
  have hne' : ¬ id = other := fun h => hne h.symm
  induction groups with
  | nil => rfl
  | cons first rest ih =>
      rw [replaceFirst]
      by_cases hfirst : first.id = some id
      · simp [hfirst, hid, hne']
      · rw [if_neg hfirst, List.find?_cons, List.find?_cons, ih]

theorem remove_ok {id : Nat} {db' : Database} (hremove : db.remove id = .ok db') :
    db' = { db with groups := db.groups.filter (·.id != some id) } := by
  unfold remove at hremove
  split at hremove
  · cases hremove
  · cases hremove
    rfl

/-! ## Numbers -/

/-- The counter has gone on by one at most, and every id was there before or was reached by it. -/
structure CountsOn (db db' : Database) : Prop where
  lastId_le : db.lastId ≤ db'.lastId
  lastId_le_succ : db'.lastId ≤ db.lastId + 1
  ids : ∀ id ∈ db'.ids, id ∈ db.ids ∨ id ≤ db'.lastId

theorem CountsOn.refl (db : Database) : db.CountsOn db :=
  ⟨Nat.le_refl _, Nat.le_succ _, fun _ => Or.inl⟩

/-- One content after another, the counter goes on by as much as there are steps at most. -/
theorem CountsOn.lastId_le_add {contents : Nat → Database}
    (h : ∀ t, (contents t).CountsOn (contents (t + 1))) (t : Nat) :
    (contents t).lastId ≤ (contents 0).lastId + t := by
  induction t with
  | zero => exact Nat.le_refl _
  | succ t ih => exact Nat.le_trans (h t).lastId_le_succ (Nat.succ_le_succ ih)

theorem save_countsOn (db : Database) (g : Group) : db.CountsOn (db.save g).2 := by
  cases hid : g.id with
  | none =>
      simp only [save, hid]
      refine ⟨Nat.le_succ _, Nat.le_refl _, fun id hmem => ?_⟩
      rw [ids, List.filterMap_append, List.mem_append] at hmem
      exact hmem.imp_right fun hnew => Nat.le_of_eq (by simpa using hnew)
  | some known =>
      simp only [save, hid]
      exact ⟨Nat.le_refl _, Nat.le_succ _, fun id hmem => Or.inl (ids_replaceFirst db hid ▸ hmem)⟩

theorem saveUnique_countsOn {g stored : Group} {db' : Database}
    (hsave : db.saveUnique g = .ok (stored, db')) : db.CountsOn db' := by
  have hcounts := db.save_countsOn g
  unfold saveUnique at hsave
  split at hsave
  · cases hsave
  · split at hsave
    · cases hsave
    · rwa [Except.ok.inj hsave] at hcounts

theorem filter_countsOn (db : Database) (p : Group → Bool) :
    db.CountsOn { db with groups := db.groups.filter p } where
  lastId_le := Nat.le_refl _
  lastId_le_succ := Nat.le_succ _
  ids := by
    intro id hid
    obtain ⟨g, hg, hgid⟩ := mem_ids.mp hid
    exact Or.inl (mem_ids.mpr ⟨g, List.mem_of_mem_filter hg, hgid⟩)

theorem remove_countsOn {id : Nat} {db' : Database} (hremove : db.remove id = .ok db') :
    db.CountsOn db' := by
  rw [remove_ok hremove]
  exact db.filter_countsOn _

theorem Bounded.countsOn {db' : Database} (h : db.Bounded) (hcounts : db.CountsOn db') :
    db'.Bounded := fun id hid =>
  (hcounts.ids id hid).elim (fun hold => Nat.le_trans (h id hold) hcounts.lastId_le) fun hle => hle

/-- Every id is a word, or was reached by the counter. -/
def Fits (db : Database) : Prop := ∀ id ∈ db.ids, id ≤ db.lastId ∨ id < Text.wordLimit

theorem Bounded.fits (h : db.Bounded) : db.Fits := fun id hid => Or.inl (h id hid)

theorem Fits.countsOn {db' : Database} (h : db.Fits) (hcounts : db.CountsOn db') : db'.Fits := by
  intro id hid
  rcases hcounts.ids id hid with hold | hle
  · exact (h id hold).imp_left fun hle => Nat.le_trans hle hcounts.lastId_le
  · exact Or.inl hle

namespace Sound

theorem isBounded (h : db.Sound) : db.Bounded := fun id hid => (h.bounded id hid).2

theorem fits (h : db.Sound) : db.Fits := h.isBounded.fits

/-! ## Looking up -/

theorem exists_id (h : db.Sound) {g : Group} (hg : g ∈ db.groups) :
    ∃ id, g.id = some id ∧ 0 < id ∧ id ≤ db.lastId := by
  have hmem : g.id ∈ db.ids.map some := h.numbered ▸ List.mem_map_of_mem hg
  obtain ⟨id, hid, heq⟩ := List.mem_map.mp hmem
  exact ⟨id, heq.symm, h.bounded id hid⟩

theorem list_eq_nil (h : db.Sound) : db.list = [] ↔ db.groups = [] := by
  constructor
  · intro hnone
    refine List.eq_nil_iff_forall_not_mem.mpr fun g hg => ?_
    obtain ⟨id, hid, -⟩ := h.exists_id hg
    have hmem : (⟨id, g.name⟩ : GroupInfo) ∈ db.list :=
      List.mem_filterMap.mpr ⟨g, hg, by rw [hid]; rfl⟩
    rw [hnone] at hmem
    cases hmem
  · intro hnone
    rw [list, hnone]
    rfl

theorem nodup_ids (h : db.Sound) : (db.groups.map (·.id)).Nodup := by
  rw [h.numbered]
  exact List.Nodup.map (fun _ _ => Option.some.inj) (h.ascending.imp fun hlt => Nat.ne_of_lt hlt)

theorem eq_of_id (h : db.Sound) {g g' : Group} (hg : g ∈ db.groups) (hg' : g' ∈ db.groups)
    (heq : g.id = g'.id) : g = g' :=
  List.inj_on_of_nodup_map h.nodup_ids hg hg' heq

theorem byId?_eq_some (h : db.Sound) {id : Nat} {g : Group} :
    db.byId? id = some g ↔ g ∈ db.groups ∧ g.id = some id :=
  find?_eq_some_of_nodup h.nodup_ids

/-! ## Changes -/

theorem append (h : db.Sound) {g : Group} (hcheck : g.check = .ok ())
    (hname : ∀ h ∈ db.groups, h.name ≠ g.name) :
    Sound ⟨db.lastId + 1, db.groups ++ [{ g with id := some (db.lastId + 1) }]⟩ := by
  have hids : ids ⟨db.lastId + 1, db.groups ++ [{ g with id := some (db.lastId + 1) }]⟩ =
      db.ids ++ [db.lastId + 1] := by
    simp [ids]
  refine ⟨?_, ?_, ?_, ?_, ?_⟩
  · rw [hids, List.map_append, List.map_append, h.numbered]
    rfl
  · rw [hids, List.pairwise_append]
    refine ⟨h.ascending, List.pairwise_singleton _ _, fun id hid last hlast => ?_⟩
    rw [List.mem_singleton] at hlast
    have := (h.bounded id hid).2
    omega
  · intro id hid
    rw [hids, List.mem_append, List.mem_singleton] at hid
    rcases hid with hid | rfl
    · have := h.bounded id hid
      exact ⟨this.1, Nat.le_succ_of_le this.2⟩
    · exact ⟨Nat.succ_pos _, Nat.le_refl _⟩
  · rw [List.map_append, List.nodup_append]
    refine ⟨h.distinct, List.nodup_singleton _, ?_⟩
    intro a ha b hb
    obtain ⟨g', hg', rfl⟩ := List.mem_map.mp ha
    simp only [List.map_cons, List.map_nil, List.mem_singleton] at hb
    rw [hb]
    exact hname g' hg'
  · intro g' hg'
    rw [List.mem_append, List.mem_singleton] at hg'
    rcases hg' with hg' | rfl
    · exact h.checked g' hg'
    · exact Group.check_withId hcheck _

theorem replace (h : db.Sound) {id : Nat} {g : Group} (hid : g.id = some id)
    (hcheck : g.check = .ok ()) (hname : ∀ h ∈ db.groups, h.name = g.name → h.id = g.id) :
    Sound { db with groups := replaceFirst id g db.groups } := by
  have hmap := replaceFirst_eq_map id g h.nodup_ids
  have hids := ids_replaceFirst db hid
  refine ⟨?_, hids ▸ h.ascending, hids ▸ h.bounded, ?_, ?_⟩
  · rw [hids, ← h.numbered]
    exact map_id_replaceFirst hid db.groups
  · rw [hmap, List.map_map]
    refine List.Nodup.map_on (fun x hx y hy heq => ?_) h.nodup_ids.of_map
    simp only [Function.comp_apply] at heq
    split at heq <;> split at heq
    · rename_i hx' hy'
      exact h.eq_of_id hx hy (hx'.trans hy'.symm)
    · rename_i hx' hy'
      exact absurd ((hname y hy heq.symm).trans hid) hy'
    · rename_i hx' hy'
      exact absurd ((hname x hx heq).trans hid) hx'
    · exact List.inj_on_of_nodup_map h.distinct hx hy heq
  · intro g' hg'
    simp only [hmap, List.mem_map] at hg'
    obtain ⟨h', hh', rfl⟩ := hg'
    split
    · exact hcheck
    · exact h.checked h' hh'

theorem filter (h : db.Sound) (p : Group → Bool) :
    Sound { db with groups := db.groups.filter p } := by
  have hgroups : (db.groups.filter p).Sublist db.groups := List.filter_sublist
  have hids : (ids { db with groups := db.groups.filter p }).Sublist db.ids :=
    hgroups.filterMap _
  refine ⟨?_, h.ascending.sublist hids, fun id hid => h.bounded id (hids.mem hid),
    h.distinct.sublist (hgroups.map _), fun g hg => h.checked g (hgroups.mem hg)⟩
  have hall : ∀ groups : List Group, (∀ g ∈ groups, g ∈ db.groups) →
      groups.map (·.id) = (groups.filterMap (·.id)).map some := by
    intro groups hmem
    induction groups with
    | nil => rfl
    | cons g groups ih =>
        obtain ⟨id, hid, -⟩ := h.exists_id (hmem g (by simp))
        rw [List.map_cons, List.filterMap_cons_some hid, List.map_cons, hid,
          ih fun g hg => hmem g (List.mem_cons_of_mem _ hg)]
  exact hall _ fun g hg => hgroups.mem hg

theorem remove (h : db.Sound) {id : Nat} {db' : Database} (hremove : db.remove id = .ok db') :
    db'.Sound := by
  rw [remove_ok hremove]
  exact h.filter _

end Sound

/-- Storing a group whose name is free: a new one at the end, any other in the place of the old one. -/
theorem saveUnique_cases {g stored : Group} {db' : Database}
    (hsave : db.saveUnique g = .ok (stored, db')) :
    (∀ h ∈ db.groups, h.name = g.name → h.id = g.id) ∧
      ((g.id = none ∧ stored = { g with id := some (db.lastId + 1) } ∧
          db' = ⟨db.lastId + 1, db.groups ++ [stored]⟩) ∨
        ∃ id old, g.id = some id ∧ db.byId? id = some old ∧ stored = g ∧
          db' = { db with groups := replaceFirst id g db.groups }) := by
  unfold saveUnique at hsave
  split at hsave
  · cases hsave
  · rename_i hknown
    split at hsave
    · cases hsave
    · rename_i hnames
      constructor
      · intro h hh hname
        by_contra hid
        apply hnames
        rw [List.any_eq_true]
        exact ⟨h, hh, by simp [hname, hid]⟩
      · cases hid : g.id with
        | none =>
            simp only [save, hid, Except.ok.injEq, Prod.mk.injEq] at hsave
            obtain ⟨rfl, rfl⟩ := hsave
            exact Or.inl ⟨rfl, rfl, rfl⟩
        | some id =>
            simp only [save, hid, Except.ok.injEq, Prod.mk.injEq] at hsave
            obtain ⟨rfl, rfl⟩ := hsave
            cases hold : db.byId? id with
            | none => simp [hid, Option.filter, hold] at hknown
            | some old => exact Or.inr ⟨id, old, rfl, hold, rfl, rfl⟩

/-- A group with a stored id and a free name takes the place of the one with the id. -/
theorem saveUnique_eq_ok {id : Nat} {g : Group} (hid : g.id = some id) (hstored : id ∈ db.ids)
    (hname : ∀ h ∈ db.groups, h.name = g.name → h.id = g.id) :
    db.saveUnique g = .ok (g, { db with groups := replaceFirst id g db.groups }) := by
  have hfound : (db.byId? id).isNone = false := by
    obtain ⟨h, hh, hhid⟩ := mem_ids.mp hstored
    rw [Option.isNone_eq_false_iff, byId?, List.find?_isSome]
    exact ⟨h, hh, by simp [hhid]⟩
  have hfree : (db.groups.any fun h => h.name == g.name && h.id != g.id) = false := by
    rw [List.any_eq_false]
    intro h hh hclash
    simp only [Bool.and_eq_true, beq_iff_eq, bne_iff_ne] at hclash
    exact hclash.2 (hname h hh hclash.1)
  rw [saveUnique, hid, Option.filter_some, hfound, ← hid, hfree]
  simp [save, hid]

theorem saveUnique_new (db : Database) {g : Group} (hid : g.id = none)
    (hname : ∀ h ∈ db.groups, h.name ≠ g.name) :
    db.saveUnique g = .ok ({ g with id := some (db.lastId + 1) },
      ⟨db.lastId + 1, db.groups ++ [{ g with id := some (db.lastId + 1) }]⟩) := by
  have hfree : (db.groups.any fun h => h.name == g.name && h.id != g.id) = false := by
    simpa using fun h hh hsame => absurd hsame (hname h hh)
  rw [saveUnique, hid, Option.filter_none, ← hid, hfree]
  simp [save, hid]

/-- A new group is refused only for its name. -/
theorem saveUnique_refused {g : Group} {e : GroupError} (hid : g.id = none)
    (hsave : db.saveUnique g = .error e) : e = .duplicateName g.name ∧ g.name ∈ db.names := by
  rw [saveUnique, hid, Option.filter_none] at hsave
  dsimp only at hsave
  split at hsave
  · rename_i hclash
    obtain ⟨h, hh, hsame⟩ := List.any_eq_true.mp hclash
    rw [Bool.and_eq_true, beq_iff_eq] at hsame
    exact ⟨(Except.error.inj hsave).symm, List.mem_map.mpr ⟨h, hh, hsame.1⟩⟩
  · cases hsave

theorem Sound.saveUnique_taken (h : db.Sound) {g : Group} (hid : g.id = none)
    (hname : g.name ∈ db.names) : db.saveUnique g = .error (.duplicateName g.name) := by
  obtain ⟨h', hh', hsame⟩ := List.mem_map.mp hname
  obtain ⟨id, hid', -⟩ := h.exists_id hh'
  have hclash : (db.groups.any fun h => h.name == g.name && h.id != g.id) = true :=
    List.any_eq_true.mpr ⟨h', hh', by simp [hsame, hid, hid']⟩
  rw [Database.saveUnique, hid, Option.filter_none, ← hid, hclash]
  simp [hid]

theorem name_free {g : Group} {gs : List Group}
    (hnames : ((db.groups ++ g :: gs).map (·.name)).Nodup) : ∀ h ∈ db.groups, h.name ≠ g.name := by
  intro h hh hsame
  rw [List.map_append, List.nodup_append] at hnames
  exact hnames.2.2 _ (List.mem_map_of_mem hh) g.name (by simp) hsame

theorem saveUnique_id {g stored : Group} {db' : Database}
    (hsave : db.saveUnique g = .ok (stored, db')) :
    stored.id = some (g.id.getD (db.lastId + 1)) := by
  rcases (saveUnique_cases hsave).2 with ⟨hid, rfl, -⟩ | ⟨id, -, hid, -, rfl, -⟩
  · rw [hid]
    rfl
  · rw [hid]
    rfl

theorem Sound.saveUnique (h : db.Sound) {g stored : Group} {db' : Database}
    (hcheck : g.check = .ok ()) (hsave : db.saveUnique g = .ok (stored, db')) :
    db'.Sound ∧ stored ∈ db'.groups := by
  obtain ⟨hname, ⟨hid, rfl, rfl⟩ | ⟨id, old, hid, hold, rfl, rfl⟩⟩ := saveUnique_cases hsave
  · refine ⟨h.append hcheck fun h' hh' heq => ?_, by simp⟩
    obtain ⟨id, hid', -⟩ := h.exists_id hh'
    rw [hname h' hh' heq, hid] at hid'
    cases hid'
  · refine ⟨h.replace hid hcheck hname, ?_⟩
    obtain ⟨hold, hid'⟩ := h.byId?_eq_some.mp hold
    simp only [replaceFirst_eq_map id stored h.nodup_ids, List.mem_map]
    exact ⟨old, hold, if_pos hid'⟩

end Database

end AssetGroups
