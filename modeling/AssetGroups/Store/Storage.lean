import AssetGroups.Store.Path

/-!
Where a store lives and how its writers exclude each other.
-/

namespace AssetGroups

/-- Whether the writers of one process alone exclude each other, or those of all processes through a
lock file. -/
inductive LockBackend where
  | process
  | file
deriving DecidableEq, Repr

structure Storage where
  path : String := "data/groups.json"
  lock : LockBackend := .process
  lockPath : Option String := none
deriving DecidableEq, Repr

namespace Storage

/-- The lock file stands beside the store file, with the extension `lock`, unless a path is given. -/
def lockFile (s : Storage) : String := s.lockPath.getD (Path.withExtension s.path "lock")

def isDurable (s : Storage) : Bool := s.lock == .file

end Storage

end AssetGroups
