import AssetGroups.Cluster

/-!
Scripts under way side by side at the instances of a cluster. A step of one of them is indivisible;
between two steps any other may go on. Every instance has one turn to give.
-/

namespace AssetGroups

/-- A script under way at an instance. -/
structure Running (α : Type) where
  place : Nat
  hasTurn : Bool := false
  script : Script Site α

/-- A cluster and the scripts that were started, in the order of their starts. -/
structure Schedule (α : Type) where
  cluster : Cluster := {}
  running : List (Running α) := []

namespace Schedule

variable {α : Type}

def start (s : Schedule α) (i : Nat) (script : Script Site α) : Schedule α :=
  { s with running := s.running ++ [{ place := i, script }] }

def turnTaken (s : Schedule α) (i : Nat) : Bool := s.running.any fun r => r.place == i && r.hasTurn

/-- Goes on with the `k`-th script by one step, unless it has ended or has to wait for its turn. -/
def advance? (s : Schedule α) (k : Nat) : Option (Schedule α) := do
  let r ← s.running[k]?
  match r.script with
  | .done _ => none
  | .step act next =>
    let site := s.cluster.site r.place
    return ⟨s.cluster.setSite r.place (act site), s.running.set k { r with script := next site }⟩
  | .takeTurn next =>
    if s.turnTaken r.place then none
    else return { s with running := s.running.set k { r with hasTurn := true, script := next } }
  | .giveTurn next =>
    return { s with running := s.running.set k { r with hasTurn := false, script := next } }

/-- Decides which of the accesses to come will be refused. -/
def refuse (s : Schedule α) (refusals : List (Option String)) : Schedule α :=
  { s with cluster := { s.cluster with disk := { s.cluster.disk with refusals } } }

/-- The answer of the `k`-th script, once it has ended. -/
def answer? (s : Schedule α) (k : Nat) : Option α :=
  match s.running[k]? with
  | some { script := .done a, .. } => some a
  | _ => none

end Schedule

end AssetGroups
