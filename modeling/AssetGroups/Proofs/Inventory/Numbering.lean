import AssetGroups.Inventory.Document
import AssetGroups.Proofs.Inventory.Queries

/-!
# Numbering of the items of a document

Adding items to an inventory puts their assets behind the others: an item before the items inside it,
under ids that go on by one, and with the index of children kept in step.
-/

namespace AssetGroups

/-! ## Items in the order of the text -/

mutual

def Item.preorder : Item → List Item
  | .mk type subtype name displayName attributes items =>
    .mk type subtype name displayName attributes items :: Item.allPreorder items

def Item.allPreorder : List Item → List Item
  | [] => []
  | item :: items => item.preorder ++ Item.allPreorder items

end

mutual

/-- The assets of an item, which gets the id `id`, and of the items inside it. -/
def Item.assets (parent : Option Nat) (id : Nat) : Item → List Asset
  | .mk type subtype name displayName attributes items =>
    ItemParts.toAsset id parent { type, subtype, name, displayName, attributes, items } ::
      Item.allAssets (some id) (id + 1) items

/-- The assets of items side by side, of which the first gets the id `id`. -/
def Item.allAssets (parent : Option Nat) (id : Nat) : List Item → List Asset
  | [] => []
  | item :: items =>
    let assets := item.assets parent id
    assets ++ Item.allAssets parent (id + assets.length) items

end

/-- The asset is an item, whatever its id, its parent and its host are. -/
structure Asset.Shows (a : Asset) (item : Item) : Prop where
  name : a.name = item.parts.name
  displayName : a.displayName = item.parts.displayName
  type : a.type = item.parts.type
  subtype : a.subtype = item.parts.subtype.getD ""
  attributes : a.attributes = item.parts.attributes

mutual

theorem Item.assets_show (parent : Option Nat) (id : Nat) : (item : Item) →
    List.Forall₂ (fun a item => a.host = none ∧ a.Shows item) (item.assets parent id) item.preorder
  | .mk _ _ _ _ _ items => by
      rw [Item.assets, Item.preorder]
      exact .cons ⟨rfl, rfl, rfl, rfl, rfl, rfl⟩ (Item.allAssets_show (some id) (id + 1) items)

theorem Item.allAssets_show (parent : Option Nat) (id : Nat) : (items : List Item) →
    List.Forall₂ (fun a item => a.host = none ∧ a.Shows item) (Item.allAssets parent id items)
      (Item.allPreorder items)
  | [] => .nil
  | item :: items => by
      rw [Item.allAssets, Item.allPreorder]
      exact List.rel_append (Item.assets_show parent id item) (Item.allAssets_show parent _ items)

end

mutual

theorem Item.assets_ids (parent : Option Nat) (id : Nat) : (item : Item) →
    (item.assets parent id).map (·.id) = List.range' id (item.assets parent id).length
  | .mk _ _ _ _ _ items => by
      simp only [Item.assets, List.map_cons, List.length_cons, List.range'_succ]
      rw [Item.allAssets_ids (some id) (id + 1) items]
      rfl

theorem Item.allAssets_ids (parent : Option Nat) (id : Nat) : (items : List Item) →
    (Item.allAssets parent id items).map (·.id) =
      List.range' id (Item.allAssets parent id items).length
  | [] => rfl
  | item :: items => by
      simp only [Item.allAssets, List.map_append, List.length_append, ← List.range'_append_1]
      rw [Item.assets_ids parent id item, Item.allAssets_ids parent _ items]

end

/-! ## Parents -/

/-- An item is passed on as a parent to the items inside it only, so its id is below theirs. -/
def ParentBelow (parent : Option Nat) (id : Nat) : Prop := ∀ p, parent = some p → 0 < p ∧ p < id

theorem ParentBelow.mono {parent : Option Nat} {id id' : Nat} (hle : id ≤ id')
    (h : ParentBelow parent id) : ParentBelow parent id' :=
  fun p hp => ⟨(h p hp).1, Nat.lt_of_lt_of_le (h p hp).2 hle⟩

mutual

theorem Item.assets_parents {parent : Option Nat} {id : Nat} (hpos : 0 < id)
    (hp : ParentBelow parent id) : (item : Item) →
    ∀ a ∈ item.assets parent id, ParentBelow a.parent a.id
  | .mk _ _ _ _ _ items, a, ha => by
      simp only [Item.assets, List.mem_cons] at ha
      rcases ha with rfl | ha
      · exact hp
      · have hinner : ParentBelow (some id) (id + 1) := by
          rintro p ⟨⟩
          exact ⟨hpos, Nat.lt_succ_self id⟩
        exact Item.allAssets_parents (Nat.succ_pos id) hinner items a ha

theorem Item.allAssets_parents {parent : Option Nat} {id : Nat} (hpos : 0 < id)
    (hp : ParentBelow parent id) : (items : List Item) →
    ∀ a ∈ Item.allAssets parent id items, ParentBelow a.parent a.id
  | [], a, ha => by simp [Item.allAssets] at ha
  | item :: items, a, ha => by
      simp only [Item.allAssets, List.mem_append] at ha
      rcases ha with ha | ha
      · exact Item.assets_parents hpos hp item a ha
      · have hle := Nat.le_add_right id (item.assets parent id).length
        exact Item.allAssets_parents (Nat.lt_of_lt_of_le hpos hle) (hp.mono hle) items a ha

end

/-- The asset `b` shows one of the items and `a` an item inside it, and `b` is the parent of `a`. -/
def Asset.StandsIn (items : List Item) (a b : Asset) : Prop :=
  a.parent = some b.id ∧ ∃ outer ∈ items, b.Shows outer ∧ ∃ inner ∈ outer.parts.items, a.Shows inner

theorem Asset.StandsIn.mono {items items' : List Item} {a b : Asset} (h : a.StandsIn items b)
    (hsub : items ⊆ items') : a.StandsIn items' b := by
  obtain ⟨hparent, outer, houter, hshows⟩ := h
  exact ⟨hparent, outer, hsub houter, hshows⟩

mutual

theorem Item.assets_standIn (parent : Option Nat) (id : Nat) : (item : Item) →
    ∀ a ∈ item.assets parent id, (a.parent = parent ∧ a.Shows item) ∨
      ∃ b ∈ item.assets parent id, a.StandsIn item.preorder b
  | .mk _ _ _ _ _ items, a, ha => by
      rw [Item.assets, List.mem_cons] at ha
      rcases ha with rfl | ha
      · exact .inl ⟨rfl, rfl, rfl, rfl, rfl, rfl⟩
      · right
        rw [Item.assets, Item.preorder]
        rcases Item.allAssets_standIn (some id) (id + 1) items a ha with
          ⟨hparent, inner, hinner, hshows⟩ | ⟨b, hb, hstands⟩
        · exact ⟨_, List.mem_cons_self, hparent, _, List.mem_cons_self, ⟨rfl, rfl, rfl, rfl, rfl⟩,
            inner, hinner, hshows⟩
        · exact ⟨b, List.mem_cons_of_mem _ hb, hstands.mono (List.subset_cons_self _ _)⟩

theorem Item.allAssets_standIn (parent : Option Nat) (id : Nat) : (items : List Item) →
    ∀ a ∈ Item.allAssets parent id items, (a.parent = parent ∧ ∃ item ∈ items, a.Shows item) ∨
      ∃ b ∈ Item.allAssets parent id items, a.StandsIn (Item.allPreorder items) b
  | [], a, ha => by simp [Item.allAssets] at ha
  | item :: items, a, ha => by
      rw [Item.allAssets, List.mem_append] at ha
      simp only [Item.allAssets, Item.allPreorder, List.mem_append]
      rcases ha with ha | ha
      · rcases Item.assets_standIn parent id item a ha with ⟨hparent, hshows⟩ | ⟨b, hb, hstands⟩
        · exact .inl ⟨hparent, item, List.mem_cons_self, hshows⟩
        · exact .inr ⟨b, .inl hb, hstands.mono (List.subset_append_left _ _)⟩
      · rcases Item.allAssets_standIn parent _ items a ha with
          ⟨hparent, item', hitem', hshows⟩ | ⟨b, hb, hstands⟩
        · exact .inl ⟨hparent, item', List.mem_cons_of_mem _ hitem', hshows⟩
        · exact .inr ⟨b, .inr hb, hstands.mono (List.subset_append_right _ _)⟩

end

theorem Item.exists_allAssets (parent : Option Nat) (id : Nat) {items : List Item} {item : Item}
    (hitem : item ∈ items) :
    ∃ a ∈ Item.allAssets parent id items, a.parent = parent ∧ a.Shows item := by
  induction items generalizing id with
  | nil => simp at hitem
  | cons first items ih =>
      simp only [Item.allAssets, List.mem_append]
      rcases List.mem_cons.mp hitem with rfl | hitem
      · cases item with
        | mk =>
            exact ⟨_, .inl (by rw [Item.assets]; exact List.mem_cons_self), rfl,
              rfl, rfl, rfl, rfl, rfl⟩
      · obtain ⟨a, ha, hshows⟩ := ih (id + (first.assets parent id).length) hitem
        exact ⟨a, .inr ha, hshows⟩

mutual

theorem Item.assets_enclose (parent : Option Nat) (id : Nat) : (item : Item) →
    ∀ outer ∈ item.preorder, ∀ inner ∈ outer.parts.items, ∃ b ∈ item.assets parent id,
      ∃ a ∈ item.assets parent id, b.Shows outer ∧ a.Shows inner ∧ a.parent = some b.id
  | .mk _ _ _ _ _ items, outer, houter, inner, hinner => by
      rw [Item.preorder, List.mem_cons] at houter
      rw [Item.assets]
      rcases houter with rfl | houter
      · obtain ⟨a, ha, hparent, hshows⟩ := Item.exists_allAssets (some id) (id + 1) hinner
        exact ⟨_, List.mem_cons_self, a, List.mem_cons_of_mem _ ha, ⟨rfl, rfl, rfl, rfl, rfl⟩, hshows,
          hparent⟩
      · obtain ⟨b, hb, a, ha, hstands⟩ :=
          Item.allAssets_enclose (some id) (id + 1) items outer houter inner hinner
        exact ⟨b, List.mem_cons_of_mem _ hb, a, List.mem_cons_of_mem _ ha, hstands⟩

theorem Item.allAssets_enclose (parent : Option Nat) (id : Nat) : (items : List Item) →
    ∀ outer ∈ Item.allPreorder items, ∀ inner ∈ outer.parts.items,
      ∃ b ∈ Item.allAssets parent id items, ∃ a ∈ Item.allAssets parent id items,
        b.Shows outer ∧ a.Shows inner ∧ a.parent = some b.id
  | [], outer, houter, _, _ => by simp [Item.allPreorder] at houter
  | item :: items, outer, houter, inner, hinner => by
      rw [Item.allPreorder, List.mem_append] at houter
      simp only [Item.allAssets, List.mem_append]
      rcases houter with houter | houter
      · obtain ⟨b, hb, a, ha, hstands⟩ := Item.assets_enclose parent id item outer houter inner hinner
        exact ⟨b, .inl hb, a, .inl ha, hstands⟩
      · obtain ⟨b, hb, a, ha, hstands⟩ :=
          Item.allAssets_enclose parent _ items outer houter inner hinner
        exact ⟨b, .inr hb, a, .inr ha, hstands⟩

end

/-! ## Adding to an inventory -/

theorem ChildIndex.find_cons (q p : Nat) (ids : List Nat) (index : ChildIndex) :
    find ((q, ids) :: index) p = if p = q then ids else find index p := by
  by_cases hp : p = q
  · simp [find, hp]
  · simp [find, List.lookup_cons, beq_eq_false_iff_ne.mpr hp, hp]

theorem ChildIndex.find_add (index : ChildIndex) (parent id p : Nat) :
    (index.add parent id).find p = index.find p ++ if p = parent then [id] else [] := by
  induction index with
  | nil =>
      rw [add, find_cons]
      split <;> simp [find]
  | cons entry index ih =>
      obtain ⟨q, ids⟩ := entry
      rw [add]
      split
      · next hq =>
        rw [find_cons, find_cons, hq]
        split <;> simp
      · next hq =>
        rw [find_cons, find_cons]
        split
        · next hp => simp [hp, hq]
        · exact ih

namespace Inventory

theorem assets_foldl_push (assets : List Asset) (inv : Inventory) :
    (assets.foldl push inv).assets = inv.assets ++ assets := by
  induction assets generalizing inv with
  | nil => simp
  | cons a assets ih => simp [ih, push]

theorem children_push (inv : Inventory) (a : Asset) (p : Nat) :
    (inv.push a).children.find p =
      inv.children.find p ++ if a.parent = some p then [a.id] else [] := by
  unfold push
  cases hparent : a.parent with
  | none => simp
  | some parent => simp [ChildIndex.find_add, eq_comm (a := p)]

theorem children_foldl_push (assets : List Asset) (inv : Inventory) (p : Nat) :
    (assets.foldl push inv).children.find p =
      inv.children.find p ++ (assets.filter (·.parent == some p)).map (·.id) := by
  induction assets generalizing inv with
  | nil => simp
  | cons a assets ih =>
      rw [List.foldl_cons, ih, children_push]
      by_cases hp : a.parent = some p
      · simp [hp]
      · simp [hp]

mutual

/-- Adding an item pushes its assets and those of the items inside it, in the order of the text. -/
theorem insert_eq (inv : Inventory) (parent : Option Nat) : (item : Item) →
    inv.insert parent item = (item.assets parent (inv.assets.length + 1)).foldl push inv
  | .mk _ _ _ _ _ items => by
      simp only [insert, Item.assets, List.foldl_cons]
      rw [insertAll_eq _ _ items]
      simp [push]

theorem insertAll_eq (inv : Inventory) (parent : Option Nat) : (items : List Item) →
    inv.insertAll parent items =
      (Item.allAssets parent (inv.assets.length + 1) items).foldl push inv
  | [] => by simp [insertAll, Item.allAssets]
  | item :: items => by
      rw [insertAll, insert_eq inv parent item, insertAll_eq _ parent items, assets_foldl_push,
        Item.allAssets, List.foldl_append, List.length_append, Nat.add_right_comm]

end

theorem assets_insertAll (items : List Item) :
    (insertAll {} none items).assets = Item.allAssets none 1 items := by
  rw [insertAll_eq, assets_foldl_push]
  rfl

theorem numbered_insertAll (items : List Item) : (insertAll {} none items).Numbered where
  ids := by
    rw [assets_insertAll]
    exact Item.allAssets_ids none 1 items
  parents := by
    rw [assets_insertAll]
    exact Item.allAssets_parents Nat.one_pos (fun _ hp => by simp at hp) items
  children p := by
    rw [assets_insertAll, insertAll_eq, children_foldl_push]
    rfl

end Inventory

end AssetGroups
