import AssetGroups.Inventory.Basic
import Mathlib.Data.List.Nodup

/-!
# What the queries of an inventory find

What a query says about a single asset. Ids stand for assets only in an inventory that is numbered,
in which no id is borne twice, a place comes before what stands in it, and the index of children
agrees with the parents.
-/

namespace AssetGroups

/-! ## Numbered inventories -/

namespace Inventory

/-- The ids are 1, 2, ... in the order of the assets, the parent of an asset bears one of the ids
before its own, and the index lists the children of every asset in this order. -/
structure Numbered (inv : Inventory) : Prop where
  ids : inv.assets.map (·.id) = List.range' 1 inv.assets.length
  parents : ∀ a ∈ inv.assets, ∀ p, a.parent = some p → 0 < p ∧ p < a.id
  children : ∀ p, inv.children.find p = (inv.assets.filter (·.parent == some p)).map (·.id)

variable {inv : Inventory}

theorem mem_select {p : Asset → Bool} {x : Nat} :
    x ∈ inv.select p ↔ ∃ a ∈ inv.assets, p a = true ∧ a.id = x := by
  simp [select, and_assoc]

theorem Numbered.nodup (h : inv.Numbered) : (inv.assets.map (·.id)).Nodup := by
  rw [h.ids]
  exact List.nodup_range'

theorem Numbered.ascending (h : inv.Numbered) : inv.assets.Pairwise (·.id < ·.id) := by
  have hids : (inv.assets.map (·.id)).Pairwise (· < ·) := h.ids ▸ List.pairwise_lt_range'
  exact List.pairwise_map.mp hids

theorem Numbered.eq_of_id (h : inv.Numbered) {a b : Asset} (ha : a ∈ inv.assets)
    (hb : b ∈ inv.assets) (hid : a.id = b.id) : a = b :=
  List.inj_on_of_nodup_map h.nodup ha hb hid

theorem Numbered.id_of_getElem? (h : inv.Numbered) {i : Nat} {a : Asset}
    (ha : inv.assets[i]? = some a) : a.id = i + 1 := by
  have hids : (inv.assets.map (·.id))[i]? = some a.id := by rw [List.getElem?_map, ha, Option.map_some]
  rw [h.ids, List.getElem?_range' (List.getElem?_eq_some_iff.mp ha).1] at hids
  simp only [Option.some.injEq] at hids
  omega

theorem Numbered.asset?_eq_some (h : inv.Numbered) {a : Asset} {id : Nat} :
    inv.asset? id = some a ↔ a ∈ inv.assets ∧ a.id = id := by
  constructor
  · intro ha
    cases id with
    | zero => cases ha
    | succ i => exact ⟨List.mem_of_getElem? ha, h.id_of_getElem? ha⟩
  · rintro ⟨ha, rfl⟩
    obtain ⟨i, hi⟩ := List.getElem?_of_mem ha
    rw [h.id_of_getElem? hi]
    exact hi

theorem Numbered.asset?_id (h : inv.Numbered) {a : Asset} (ha : a ∈ inv.assets) :
    inv.asset? a.id = some a :=
  h.asset?_eq_some.mpr ⟨ha, rfl⟩

theorem Numbered.parentOf?_eq_some (h : inv.Numbered) {p c : Nat} :
    inv.parentOf? c = some p ↔ ∃ a ∈ inv.assets, a.id = c ∧ a.parent = some p := by
  simp only [parentOf?, Option.bind_eq_some_iff, h.asset?_eq_some, and_assoc]

theorem Numbered.mem_children (h : inv.Numbered) {p c : Nat} :
    c ∈ inv.children.find p ↔ inv.parentOf? c = some p := by
  rw [h.children, h.parentOf?_eq_some]
  simp only [List.mem_map, List.mem_filter, beq_iff_eq, and_assoc]
  exact exists_congr fun a => and_congr_right fun _ => and_comm

theorem Numbered.id_mem_select (h : inv.Numbered) {p : Asset → Bool} {a : Asset}
    (ha : a ∈ inv.assets) : a.id ∈ inv.select p ↔ p a = true := by
  rw [mem_select]
  constructor
  · rintro ⟨b, hb, hp, hid⟩
    rwa [← h.eq_of_id hb ha hid]
  · intro hp
    exact ⟨a, ha, hp, rfl⟩

/-- Every id of the set is the id of an asset. -/
def Knows (inv : Inventory) (s : IdSet) : Prop := ∀ x ∈ s, ∃ a ∈ inv.assets, a.id = x

theorem knows_select (p : Asset → Bool) : inv.Knows (inv.select p) := by
  intro x hx
  obtain ⟨a, ha, -, hid⟩ := mem_select.mp hx
  exact ⟨a, ha, hid⟩

/-! ## Descriptions -/

theorem Numbered.describe_ascending (h : inv.Numbered) (s : IdSet) :
    (inv.describe s).Pairwise (·.id < ·.id) := by
  refine List.Pairwise.filterMap _ ?_ s.ascending
  intro x y hxy a ha b hb
  simp only [Option.map_eq_some_iff] at ha hb
  obtain ⟨a', ha', rfl⟩ := ha
  obtain ⟨b', hb', rfl⟩ := hb
  rw [(h.asset?_eq_some.mp ha').2, (h.asset?_eq_some.mp hb').2]
  exact hxy

theorem Numbered.mem_describe (h : inv.Numbered) {s : IdSet} {r : AssetRef} :
    r ∈ inv.describe s ↔ ∃ a ∈ inv.assets, a.id ∈ s ∧ r = ⟨a.id, a.name⟩ := by
  simp only [describe, List.mem_filterMap, Option.map_eq_some_iff, IdSet.mem_ids]
  constructor
  · rintro ⟨x, hx, a, ha, rfl⟩
    obtain ⟨hmem, hid⟩ := h.asset?_eq_some.mp ha
    exact ⟨a, hmem, hid ▸ hx, rfl⟩
  · rintro ⟨a, ha, hx, rfl⟩
    exact ⟨a.id, hx, a, h.asset?_id ha, rfl⟩

/-- Describing leaves no id out of a set that an inventory knows. -/
theorem Numbered.describe_ids (h : inv.Numbered) {s : IdSet} (hs : inv.Knows s) :
    (inv.describe s).map (·.id) = s.ids := by
  have hid : ∀ x ∈ s.ids, ((inv.asset? x).map fun a => a.id) = some x := by
    intro x hx
    obtain ⟨a, ha, rfl⟩ := hs x hx
    rw [h.asset?_id ha, Option.map_some]
  simp only [describe, List.map_filterMap, Option.map_map, Function.comp_def]
  rw [List.filterMap_congr hid, List.filterMap_some]

end Inventory

end AssetGroups
