import AssetGroups.Resolver
import AssetGroups.Store.Access

/-!
The jobs of the command channel. A job that changes the store announces what it changed after the
change was made. Those of one instance take turns, so that its announcements come in the order of its
changes.
-/

namespace AssetGroups

/-- What the jobs of an instance work with. -/
structure Service where
  storage : Storage := {}
  resolver : Resolver := {}
deriving Repr

def Violation.raise {α : Type} (v : Violation) : Work α := throw (.ofViolation v)

def Group.demandValid (g : Group) : Work Unit :=
  match g.check with
  | .error v => v.raise
  | .ok () => pure ()

/-- Work that keeps other work that changes the store waiting. -/
def inTurn {α : Type} (w : Work α) : Work α := ExceptT.mk w.run.inTurn

namespace Service

/-- Stores a new group, whatever id it carries, and answers with the group as stored. -/
def createOne (sv : Service) (g : Group) : Work Group := do
  let g := { g with id := none }
  g.demandValid
  let stored ← Store.saveUnique sv.storage g
  if let some id := stored.id then publish .created id
  return stored

def create (sv : Service) (g : Group) : Work Group := inTurn (sv.createOne g)

def update (sv : Service) (g : Group) : Work Group := do
  match g.id with
  | none => Violation.idExpected.raise
  | some id =>
    g.demandValid
    inTurn do
      let stored ← Store.saveUnique sv.storage g
      publish .updated id
      return stored

def deleteOne (sv : Service) (id : Nat) : Work Unit := do
  Store.remove sv.storage id
  publish .deleted id

structure Removal where
  id : Nat
  outcome : Except GroupError Unit

def Removal.text (r : Removal) : String :=
  match r.outcome with
  | .ok () => "Ok"
  | .error e => e.message

/-- Removes groups one by one; a failure is noted and the next one is tried. -/
def deleteAll (sv : Service) : List Nat → Work (List Removal)
  | [] => return []
  | id :: ids => do
    let outcome ← ExceptT.lift (sv.deleteOne id).run
    return ⟨id, outcome⟩ :: (← sv.deleteAll ids)

def delete (sv : Service) (ids : List Nat) : Work (List Removal) := inTurn (sv.deleteAll ids)

def list (sv : Service) : Work (List GroupInfo) := Store.list sv.storage

def read (sv : Service) (id : Nat) : Work Group := Store.byId sv.storage id

/-- A stored group by its id, or a group to preview. -/
inductive ResolveInput where
  | id (n : Nat)
  | group (g : Group)
deriving Repr

def lookup (sv : Service) (id : Nat) : Work Group := Store.byId sv.storage id

def resolve (sv : Service) : ResolveInput → Work (List Inventory.AssetRef)
  | .id n => sv.resolver.resolveId sv.lookup n
  | .group g => sv.resolver.resolve sv.lookup g

def resolveRules (sv : Service) (r : RuleSet) : Work (List Inventory.AssetRef) :=
  sv.resolver.resolveRules sv.lookup r

end Service

end AssetGroups
