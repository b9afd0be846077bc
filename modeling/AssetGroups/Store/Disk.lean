import AssetGroups.Store.Database
import AssetGroups.Store.Storage

/-!
The disk as a store sees it: its file, its lock file, and the refusals that it will meet.
-/

namespace AssetGroups

inductive Entry where
  | missing
  | file (octets : List UInt8)
  | folder
deriving DecidableEq, Repr

/-- `refusals` says for the accesses to come, one after another, with what cause the system refuses
them; an access beyond its end goes through. -/
structure Disk where
  store : Entry := .missing
  lockFile : Bool := false
  refusals : List (Option String) := []
deriving Repr

namespace Disk

/-- Makes one access: the cause of its refusal, if it is refused. -/
def access (d : Disk) : Option String × Disk :=
  match d.refusals with
  | [] => (none, d)
  | r :: rs => (r, { d with refusals := rs })

def takeLock (s : Storage) (d : Disk) : Except GroupError Unit × Disk :=
  match d.access with
  | (some cause, d) => (.error (.storage s.lockFile cause), d)
  | (none, d) => (.ok (), { d with lockFile := true })

/-- Reads the store file. A missing file is an empty store. -/
def load (s : Storage) (d : Disk) : Except GroupError Database × Disk :=
  match d.store with
  | .missing => (.ok {}, d)
  | .folder => (.error (.storage s.path "Is a directory"), d)
  | .file octets =>
    match d.access with
    | (some cause, d) => (.error (.storage s.path cause), d)
    | (none, d) => (Database.ofOctets s.path octets, d)

/-- Replaces the store file as a whole, or leaves it as it is. -/
def persist (s : Storage) (db : Database) (d : Disk) : Except GroupError Unit × Disk :=
  match d.access with
  | (some cause, d) => (.error (.storage s.path cause), d)
  | (none, d) =>
    if d.store = .folder then (.error (.storage s.path "Is a directory"), d)
    else (.ok (), { d with store := .file db.octets })

end Disk

end AssetGroups
