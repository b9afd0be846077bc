import AssetGroups.Error
import AssetGroups.Inventory.Basic
import AssetGroups.Json.Decoder

/-!
Inventory documents: a tree of items and links between them by name. Items are numbered from 1 in the
order of the text, an item before the items inside it.
-/

namespace AssetGroups

open Json

inductive Item where
  | mk (type : String) (subtype : Option String) (name : String) (displayName : Option String)
    (attributes : Dict String) (items : List Item)
deriving Repr

/-- A link between two items; one whose type ends in `hosts.vm` says that the source hosts the
destination. -/
structure Link where
  source : String
  destination : String
  type : String
deriving DecidableEq, Repr

def hostingLink : List Char := "hosts.vm".toList

def Link.isHosting (l : Link) : Bool := hostingLink.isSuffixOf l.type.toList

structure Document where
  items : List Item := []
  links : List Link := []
deriving Repr

/-! ## Reading -/

structure ItemParts where
  type : String := ""
  subtype : Option String := none
  name : String := ""
  displayName : Option String := none
  attributes : Dict String := []
  items : List Item := []

def ItemParts.toItem (p : ItemParts) : Item :=
  .mk p.type p.subtype p.name p.displayName p.attributes p.items

def Item.parts : Item → ItemParts
  | .mk type subtype name displayName attributes items =>
    { type, subtype, name, displayName, attributes, items }

/-- Items are nested at most `levels` deep. -/
def Item.decoderOf : (levels : Nat) → Decoder Item
  | 0 => fun _ _ => .error .malformed
  | levels + 1 => fun room s =>
    (Decoder.record {} [
      .needed "type" .text fun v p => { p with type := v },
      .optional "subtype" (.nullable .text) fun v p => { p with subtype := v },
      .needed "name" .text fun v p => { p with name := v },
      .optional "ext-name" (.nullable .text) fun v p => { p with displayName := v },
      .optional "attrs" (.dictOf .text) fun v p => { p with attributes := v },
      .optional "items" (.listOf (Item.decoderOf levels)) fun v p => { p with items := v }]
      room s).map ItemParts.toItem

/-- An item opens at least one object or list, so there is room for no more than `room` levels. -/
def Item.decoder : Decoder Item := fun room s => Item.decoderOf room room s

def Link.decoder : Decoder Link :=
  .record ⟨"", "", ""⟩ [
    .needed "src" .text fun v l => { l with source := v },
    .needed "dest" .text fun v l => { l with destination := v },
    .needed "type" .text fun v l => { l with type := v }]

def Document.decoder : Decoder Document :=
  .record {} [
    .optional "items" (.listOf Item.decoder) fun v d => { d with items := v },
    .optional "links" (.listOf Link.decoder) fun v d => { d with links := v }]

/-! ## Building -/

/-- An item without those inside it. Its host is said by the links. -/
def ItemParts.toAsset (id : Nat) (parent : Option Nat) (p : ItemParts) : Asset where
  id := id
  name := p.name
  displayName := p.displayName
  type := p.type
  subtype := p.subtype.getD ""
  parent := parent
  attributes := p.attributes

namespace Inventory

/-- Puts an asset behind the others and among the children of its parent. -/
def push (inv : Inventory) (a : Asset) : Inventory where
  assets := inv.assets ++ [a]
  children :=
    match a.parent with
    | some parent => inv.children.add parent a.id
    | none => inv.children

mutual

/-- Adds an item under the next id, then the items inside it. -/
def insert (inv : Inventory) (parent : Option Nat) : Item → Inventory
  | .mk type subtype name displayName attributes items =>
    let id := inv.assets.length + 1
    let parts : ItemParts := { type, subtype, name, displayName, attributes, items }
    insertAll (inv.push (parts.toAsset id parent)) (some id) items

def insertAll (inv : Inventory) (parent : Option Nat) : List Item → Inventory
  | [] => inv
  | item :: items => insertAll (inv.insert parent item) parent items

end

/-- The id behind each name, added to the names given before; no name is given twice. -/
def nameIds (given : List (String × Nat)) : List Asset → Except GroupError (List (String × Nat))
  | [] => .ok given
  | a :: rest =>
    if (given.lookup a.name).isSome then .error (.duplicateAsset a.name)
    else nameIds ((a.name, a.id) :: given) rest

def setHost (inv : Inventory) (host : Nat) : (id : Nat) → Inventory
  | 0 => inv
  | i + 1 => { inv with assets := inv.assets.modify i fun a => { a with host := some host } }

/-- Follows one link. Both ends have to be there, whatever the type; a later host replaces an earlier
one. -/
def addLink (ids : List (String × Nat)) (inv : Inventory) (l : Link) :
    Except GroupError Inventory :=
  match ids.lookup l.source, ids.lookup l.destination with
  | none, _ => .error (.unknownLinkEnd l.source)
  | _, none => .error (.unknownLinkEnd l.destination)
  | some source, some destination =>
    if l.isHosting then .ok (inv.setHost source destination) else .ok inv

def ofDocument (d : Document) : Except GroupError Inventory := do
  let inv := insertAll {} none d.items
  let ids ← nameIds [] inv.assets
  d.links.foldlM (addLink ids) inv

def ofJson (v : Value) : Except GroupError Inventory :=
  match decodeValue Document.decoder v with
  | .ok d => ofDocument d
  | .error _ => .error (.serialization "not an inventory document")

def ofText (s : String) : Except GroupError Inventory :=
  match decodeText Document.decoder s with
  | .ok d => ofDocument d
  | .error _ => .error (.serialization "not an inventory document")

end Inventory

end AssetGroups
