import AssetGroups.Error
import AssetGroups.Rule.Codec
import AssetGroups.Text.Blank

/-!
The content of a store: the groups in the order in which they were stored, and the id that was given
last. An id is given once, also when its group is removed.
-/

namespace AssetGroups

open Json

structure Database where
  lastId : Nat := 0
  groups : List Group := []
deriving Repr

structure GroupInfo where
  id : Nat
  name : String
deriving DecidableEq, Repr

namespace Database

/-! ## Questions -/

def byId? (db : Database) (id : Nat) : Option Group := db.groups.find? (·.id == some id)

def byName? (db : Database) (name : String) : Option Group := db.groups.find? (·.name == name)

def byId (db : Database) (id : Nat) : Except GroupError Group :=
  match db.byId? id with
  | some g => .ok g
  | none => .error (.noGroupWithId id)

def byName (db : Database) (name : String) : Except GroupError Group :=
  match db.byName? name with
  | some g => .ok g
  | none => .error (.noGroupWithName name)

def names (db : Database) : List String := db.groups.map (·.name)

def ids (db : Database) : List Nat := db.groups.filterMap (·.id)

def list (db : Database) : List GroupInfo :=
  db.groups.filterMap fun g => g.id.map fun id => ⟨id, g.name⟩

/-! ## Changes -/

def replaceFirst (id : Nat) (g : Group) : List Group → List Group
  | [] => []
  | h :: hs => if h.id = some id then g :: hs else h :: replaceFirst id g hs

/-- Stores a group. One without id gets the next id and stands last; one with an id replaces the group
that has it, and is not stored if there is none. Ids and counter are words: to count past the last word is
an overflow, which is not modelled, so what is said of an id holds where the counter stays a word. -/
def save (g : Group) (db : Database) : Group × Database :=
  match g.id with
  | none =>
    let stored := { g with id := some (db.lastId + 1) }
    (stored, ⟨db.lastId + 1, db.groups ++ [stored]⟩)
  | some id => (g, { db with groups := replaceFirst id g db.groups })

/-- Stores a group whose id, if it has one, is stored, and whose name no other group bears. -/
def saveUnique (g : Group) (db : Database) : Except GroupError (Group × Database) :=
  match g.id.filter fun id => (db.byId? id).isNone with
  | some id => .error (.noGroupWithId id)
  | none =>
    if db.groups.any fun h => h.name == g.name && h.id != g.id then .error (.duplicateName g.name)
    else .ok (db.save g)

def remove (id : Nat) (db : Database) : Except GroupError Database :=
  if (db.byId? id).isNone then .error (.nothingToRemove id)
  else .ok { db with groups := db.groups.filter (·.id != some id) }

/-- Without any group. The counter goes on. -/
def clear (db : Database) : Database := { db with groups := [] }

/-! ## Text -/

def toJson (db : Database) : Value :=
  .object [("last-id", .nat db.lastId), ("groups", .list (db.groups.map Group.toJson))]

def decoder : Decoder Database :=
  .record {} [
    .optional "last-id" .word fun v db => { db with lastId := v },
    .optional "groups" (.listOf Group.decoder) fun v db => { db with groups := v }]

def text (db : Database) : String := db.toJson.pretty

def octets (db : Database) : List UInt8 := Text.Utf8.encode db.text

/-- The content that a text describes; a blank text describes an empty store. -/
def ofText (s : String) : Except GroupError Database :=
  if Text.allBlank s.toList then .ok {}
  else
    match decodeText decoder s with
    | .ok db => .ok db
    | .error _ => .error (.serialization "not a group database")

/-- The content that a file describes, which has to be text. -/
def ofOctets (path : String) (octets : List UInt8) : Except GroupError Database :=
  match Text.Utf8.decode? octets with
  | some s => ofText s
  | none => .error (.storage path "stream did not contain valid UTF-8")

end Database

end AssetGroups
