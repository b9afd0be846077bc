import AssetGroups.Store.Storage

/-!
The writers of all instances that share a store file. A writer opens the lock file, which is created if
it is missing, waits until nobody has a lock on that file, and puts a new file in the place of the store
file. A lock is on a file and not on its place: it stays on the one that was opened when another one is
put there.
-/

namespace AssetGroups

/-- Where a path leads: its last component and the folder, each from its end. -/
def Path.place? (path : String) : Option (List Char × List Char) := splitName path.toList

namespace Lock

/-- How far a writer has come, and with which lock file. -/
inductive Writer where
  | away
  | waiting (file : Nat)
  | inside (file : Nat)
deriving DecidableEq, Repr

/-- The file that stands at each place, how many files there were so far, and the writers. -/
structure Writers where
  files : List Char × List Char → Option Nat := fun _ => none
  count : Nat := 0
  all : List Writer := []

/-- What a writer does. It may leave wherever it is. -/
inductive WriterMove where
  | approach (k : Nat)
  | enter (k : Nat)
  | replace (k : Nat)
  | leave (k : Nat)
deriving DecidableEq, Repr

namespace Writers

/-- Puts a new file at a place. -/
def put (s : Writers) (place : List Char × List Char) : Writers :=
  { s with files := fun p => if p = place then some s.count else s.files p, count := s.count + 1 }

def proceed (s : Writers) (k : Nat) (w : Writer) : Writers := { s with all := s.all.set k w }

/-- What a move leads to, if it can be made. -/
def next? (cfg : Storage) (s : Writers) : WriterMove → Option Writers
  | .approach k => do
    let .away ← s.all[k]? | none
    let place ← Path.place? cfg.lockFile
    match s.files place with
    | some file => some (s.proceed k (.waiting file))
    | none => some ((s.put place).proceed k (.waiting s.count))
  | .enter k => do
    let .waiting file ← s.all[k]? | none
    if .inside file ∈ s.all then none else some (s.proceed k (.inside file))
  | .replace k => do
    let .inside _ ← s.all[k]? | none
    let place ← Path.place? cfg.path
    some (s.put place)
  | .leave k => do
    let _ ← s.all[k]?
    some (s.proceed k .away)

def run? (cfg : Storage) (s : Writers) (moves : List WriterMove) : Option Writers :=
  moves.foldlM (next? cfg) s

end Writers

end Lock

end AssetGroups
