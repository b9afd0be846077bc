import AssetGroups.Inventory.IdSet
import AssetGroups.Inventory.Kind
import AssetGroups.Inventory.Matching

/-!
The inventory: assets in a tree of places, virtual machines with the asset that hosts them. Every
query answers with the set of the ids it found; finding nothing is no error.
-/

namespace AssetGroups

open Text

/-- An asset. `parent` is the asset that it stands in and `host` the one that it runs on; assets
without a display name are not found by one. -/
structure Asset where
  id : Nat
  name : String
  displayName : Option String := none
  type : String
  subtype : String := ""
  parent : Option Nat := none
  host : Option Nat := none
  attributes : List (String × String) := []
deriving Repr

/-- The values that an attribute holds: the items of a text in square brackets, without the white
space around them and the slashes before them, or the text itself. -/
def attributeValues (raw : String) : List String :=
  match raw.toList with
  | '[' :: r =>
    match r.reverse with
    | ']' :: inner =>
      (((splitAt ',' inner.reverse).map fun v => (trim v).dropWhile (· == '/')).filter
        (!·.isEmpty)).map String.ofList
    | _ => [raw]
  | _ => [raw]

namespace Asset

def kind (a : Asset) : Kind := Kind.ofType a.type

/-- Whether one of the values of the attributes selected by the keys matches. -/
def hasAttribute (keys : List AttributeKey) (m : TextMatch) (a : Asset) : Bool :=
  a.attributes.any fun (key, raw) =>
    keys.any (·.accepts key) && (attributeValues raw).any m.accepts

end Asset

/-- For every asset that others stand in, the ids of these in the order in which they came. -/
abbrev ChildIndex := List (Nat × List Nat)

namespace ChildIndex

def add (parent id : Nat) : ChildIndex → ChildIndex
  | [] => [(parent, [id])]
  | (p, ids) :: rest => if p = parent then (p, ids ++ [id]) :: rest else (p, ids) :: add parent id rest

def find (index : ChildIndex) (parent : Nat) : List Nat := (index.lookup parent).getD []

def all (index : ChildIndex) : List Nat := index.flatMap (·.2)

theorem mem_all_of_mem_find {index : ChildIndex} {p c : Nat} (h : c ∈ index.find p) :
    c ∈ index.all := by
  cases hp : index.lookup p with
  | none => simp [find, hp] at h
  | some ids =>
      obtain ⟨before, after, rfl, -⟩ := List.lookup_eq_some_iff.mp hp
      rw [find, hp, Option.getD_some] at h
      simp [all, h]

/-- How many of the ids in the index were not found. -/
def unfound (index : ChildIndex) (found : IdSet) : Nat := (index.all.filter (· ∉ found)).length

theorem unfound_insert_lt {index : ChildIndex} {c : Nat} {found : IdSet} (hc : c ∈ index.all)
    (hnew : c ∉ found) : index.unfound (found.insert c) < index.unfound found := by
  have hfilter : index.all.filter (· ∉ found.insert c) =
      (index.all.filter (· ∉ found)).filter (· ≠ c) := by
    simp [List.filter_filter]
  rw [unfound, hfilter, unfound, List.length_filter_lt_length_iff_exists]
  exact ⟨c, by simp [hc, hnew], by simp⟩

end ChildIndex

/-- Assets in the order of the document they come from: an asset stands after its parent, and its id
is its place in the order, counted from 1. -/
structure Inventory where
  assets : List Asset := []
  children : ChildIndex := []
deriving Repr

namespace Inventory

def asset? (inv : Inventory) : (id : Nat) → Option Asset
  | 0 => none
  | i + 1 => inv.assets[i]?

def idOf? (inv : Inventory) (name : String) : Option Nat :=
  (inv.assets.find? (·.name == name)).map (·.id)

def parentOf? (inv : Inventory) (id : Nat) : Option Nat := (inv.asset? id).bind (·.parent)

def hostOf? (inv : Inventory) (a : Asset) : Option Asset := a.host.bind inv.asset?

def select (inv : Inventory) (p : Asset → Bool) : IdSet := .ofList ((inv.assets.filter p).map (·.id))

/-! ## Queries -/

def inDomain (inv : Inventory) (d : Domain) : IdSet := inv.select fun a => d.contains a.kind

def byName (inv : Inventory) (m : TextMatch) : IdSet := inv.select fun a => a.displayName.any m.accepts

def byInternalName (inv : Inventory) (m : TextMatch) : IdSet := inv.select fun a => m.accepts a.name

def byType (inv : Inventory) (m : TextMatch) : IdSet := inv.select fun a => m.accepts a.type

def bySubtype (inv : Inventory) (m : TextMatch) : IdSet :=
  inv.select fun a => !a.subtype.isEmpty && m.accepts a.subtype

def byAttribute (inv : Inventory) (keys : List AttributeKey) (m : TextMatch) : IdSet :=
  inv.select fun a => a.hasAttribute keys m

def byHostAttribute (inv : Inventory) (keys : List AttributeKey) (m : TextMatch) : IdSet :=
  inv.select fun a => (inv.hostOf? a).any (·.hasAttribute keys m)

def hostedBy (inv : Inventory) (m : TextMatch) : IdSet :=
  inv.select fun a => (inv.hostOf? a).any fun host => m.accepts host.name

/-! ### Places

What lies below a place is found with a stack of assets whose children are still to be seen. -/

/-- Puts on the stack those of the children that were not found before, and finds them. -/
def pushNew : (children stack : List Nat) → IdSet → List Nat × IdSet
  | [], stack, found => (stack, found)
  | c :: cs, stack, found =>
    if c ∈ found then pushNew cs stack found else pushNew cs (c :: stack) (found.insert c)

theorem length_add_unfound_pushNew {index : ChildIndex} {children : List Nat} (stack : List Nat)
    (found : IdSet) (h : ∀ c ∈ children, c ∈ index.all) :
    (pushNew children stack found).1.length + index.unfound (pushNew children stack found).2 ≤
      stack.length + index.unfound found := by
  induction children generalizing stack found with
  | nil => exact Nat.le_refl _
  | cons c cs ih =>
      rw [List.forall_mem_cons] at h
      rw [pushNew]
      split
      · exact ih stack found h.2
      · next hnew =>
        have := ih (c :: stack) (found.insert c) h.2
        have := ChildIndex.unfound_insert_lt h.1 hnew
        rw [List.length_cons] at *
        omega

/-- Finds all that lies below the assets on the stack. Children that were found before are not
followed again, so that an asset is put on the stack at most once. -/
def descend (inv : Inventory) : (stack : List Nat) → IdSet → IdSet
  | [], found => found
  | id :: stack, found =>
    let next := pushNew (inv.children.find id) stack found
    inv.descend next.1 next.2
termination_by stack found => stack.length + inv.children.unfound found
decreasing_by
  have := length_add_unfound_pushNew stack found fun _ => inv.children.mem_all_of_mem_find (p := id)
  simp only [List.length_cons]
  omega

/-- The ids of the assets below a place whose internal name matches. -/
def below (inv : Inventory) (m : TextMatch) : IdSet :=
  (inv.assets.filter fun a => a.kind == .location && m.accepts a.name).foldl
    (fun found place => inv.descend [place.id] found) .empty

/-- The assets below a matching place, and those that run on one of them. -/
def byLocation (inv : Inventory) (m : TextMatch) : IdSet :=
  let found := inv.below m
  found.union (inv.select fun a => a.host.any (· ∈ found))

/-! ### Descriptions -/

structure AssetRef where
  id : Nat
  name : String
deriving DecidableEq, Repr

def describe (inv : Inventory) (s : IdSet) : List AssetRef :=
  s.ids.filterMap fun id => (inv.asset? id).map fun a => ⟨a.id, a.name⟩

end Inventory

end AssetGroups
