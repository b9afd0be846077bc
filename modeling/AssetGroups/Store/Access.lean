import AssetGroups.Event
import AssetGroups.Script
import AssetGroups.Store.Disk

/-!
Access to a store by one of the instances that share its file. An instance keeps the content it read
last in its slot; every acquisition of its lock is one step. With a lock file the content is read
anew in every exclusive acquisition, since another instance may have replaced the file.
-/

namespace AssetGroups

/-- The content as an instance knows it, once it was read. -/
structure Slot where
  loaded : Bool := false
  database : Database := {}
deriving Repr

/-- What one instance acts on: its slot, its feed and the disk, which it may share. -/
structure Site where
  slot : Slot := {}
  feed : Feed := {}
  disk : Disk := {}
deriving Repr

/-- What happens during one acquisition of the lock. -/
abbrev Acquisition := ExceptT GroupError (StateM Site)

/-- Work of an instance, acquisition by acquisition. -/
abbrev Work := ExceptT GroupError (Script Site)

namespace Acquisition

variable {α : Type}

def onDisk (f : Disk → Except GroupError α × Disk) : Acquisition α :=
  ExceptT.mk fun s => let (r, d) := f s.disk; (r, { s with disk := d })

def asWork (a : Acquisition α) : Work α := ExceptT.mk (Script.once fun s => a.run s)

def database : Acquisition Database := return (← get).slot.database

def exclude (cfg : Storage) : Acquisition Unit :=
  if cfg.isDurable then onDisk (Disk.takeLock cfg) else pure ()

/-- Fills the slot from the file. A failure leaves it as it is. -/
def load (cfg : Storage) : Acquisition Unit := do
  let db ← onDisk (Disk.load cfg)
  modify fun s => { s with slot := ⟨true, db⟩ }

def openExclusive (cfg : Storage) : Acquisition Database := do
  exclude cfg
  if cfg.isDurable || !(← get).slot.loaded then load cfg
  database

/-- Changes the content, in the file first: a change that cannot be written is not made. -/
def change (cfg : Storage) (f : Database → Except GroupError (α × Database)) : Acquisition α := do
  let db ← openExclusive cfg
  let (a, db) ← f db
  onDisk (Disk.persist cfg db)
  modify fun s => { s with slot := { s.slot with database := db } }
  return a

def loadOnce (cfg : Storage) : Acquisition Unit := do
  exclude cfg
  if !(← get).slot.loaded then load cfg

def known? : Acquisition (Option Database) := do
  let slot := (← get).slot
  return if slot.loaded then some slot.database else none

end Acquisition

/-! ## Operations -/

namespace Store

variable {α : Type}

def change (cfg : Storage) (f : Database → Except GroupError (α × Database)) : Work α :=
  (Acquisition.change cfg f).asWork

/-- A shared acquisition with the present content. With a lock file an exclusive one goes before it,
which reads what others wrote. -/
def snapshot (cfg : Storage) : Work Database := do
  if cfg.isDurable then discard (Acquisition.openExclusive cfg).asWork
  match ← Acquisition.known?.asWork with
  | some db => return db
  | none =>
    (Acquisition.loadOnce cfg).asWork
    Acquisition.database.asWork

def byId (cfg : Storage) (id : Nat) : Work Group := do (← snapshot cfg).byId id

def byName (cfg : Storage) (name : String) : Work Group := do (← snapshot cfg).byName name

def names (cfg : Storage) : Work (List String) := return (← snapshot cfg).names

def ids (cfg : Storage) : Work (List Nat) := return (← snapshot cfg).ids

def list (cfg : Storage) : Work (List GroupInfo) := return (← snapshot cfg).list

def save (cfg : Storage) (g : Group) : Work Group := change cfg fun db => .ok (db.save g)

def saveUnique (cfg : Storage) (g : Group) : Work Group := change cfg (Database.saveUnique g)

def remove (cfg : Storage) (id : Nat) : Work Unit :=
  change cfg fun db => (db.remove id).map ((), ·)

def clear (cfg : Storage) : Work Unit := change cfg fun db => .ok ((), db.clear)

end Store

def publish (subject : EventSubject) (id : Nat) : Work Unit :=
  Acquisition.asWork (modify fun s => { s with feed := s.feed.publish ⟨subject, id⟩ })

end AssetGroups
