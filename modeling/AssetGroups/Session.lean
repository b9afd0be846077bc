import AssetGroups.Schedule

/-!
Sessions: instances that share a store file, and what happens to them moment by moment.
-/

namespace AssetGroups

/-- What happens at a moment: an instance is asked for something, a script goes on by one step, one more
instance is opened, or it is decided which accesses to come will be refused. -/
inductive Move (κ : Type) where
  | ask (i : Nat) (what : κ)
  | advance (k : Nat)
  | join
  | refuse (refusals : List (Option String))
deriving Repr

/-- So many instances that are opened on the disk as it is at first, what happens from then on, and the
scripts that are started for what is asked. -/
structure Session (κ α : Type) where
  script : κ → Script Site α
  instances : Nat
  moves : Nat → Move κ
  first : Disk := {}

namespace Session

variable {κ α : Type} (x : Session κ α)

/-- What a move leads to; one that cannot be made changes nothing. -/
def next (s : Schedule α) : Move κ → Schedule α
  | .ask i what => if i < s.cluster.instances.length then s.start i (x.script what) else s
  | .advance k => (s.advance? k).getD s
  | .join => { s with cluster := s.cluster.join }
  | .refuse refusals => s.refuse refusals

/-- What the moves before the moment `t` have led to. -/
def state : (t : Nat) → Schedule α
  | 0 => { cluster := .opened x.instances x.first }
  | t + 1 => x.next (state t) (x.moves t)

/-- What all instances share at the moment `t`. -/
def disk (t : Nat) : Disk := (x.state t).cluster.disk

/-- What the `i`-th instance acts on at the moment `t`. -/
def site (t i : Nat) : Site := (x.state t).cluster.site i

end Session

end AssetGroups
