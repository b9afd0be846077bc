import AssetGroups.Lock.Callers

/-!
An access lock from the inside. The gate belongs to one thread at a time; a thread that is not admitted
gives it back and falls asleep in one step, and only a notification, which wakes everybody asleep, makes
it look again. Notifications are sent after the gate was given back.
-/

namespace AssetGroups.Lock

/-- Where a thread stands in the code of the lock. -/
inductive Point where
  /-- It has the gate and is going to look whether it is admitted. -/
  | checking
  /-- It has the gate, is not admitted and is going to sleep. -/
  | refused
  | asleep
  /-- It was notified and is waiting for the gate. -/
  | woken
  /-- It has the gate and has changed it, and may have to tell the others. -/
  | changed (announces : Bool)
  /-- It has given the gate back and is going to notify. -/
  | announcing
  | through
deriving DecidableEq, Repr

namespace Point

/-- Whether a thread has the gate. -/
def owns : Point → Bool
  | .checking | .refused | .changed _ => true
  | .asleep | .woken | .announcing | .through => false

/-- Whether a thread has drawn its ticket and is not admitted. -/
def waits : Point → Bool
  | .checking | .refused | .asleep | .woken => true
  | .changed _ | .announcing | .through => false

/-- Whether a thread has changed the gate and is still to notify. -/
def willNotify : Point → Bool
  | .changed announces => announces
  | .announcing => true
  | .checking | .refused | .asleep | .woken | .through => false

def wake : Point → Point
  | .asleep => .woken
  | p => p

end Point

/-- The threads, each with one acquisition, and who has the gate. -/
structure Monitor where
  callers : Callers := {}
  owner : Option Nat := none
  points : List Point := []
deriving DecidableEq, Repr

namespace Monitor

/-- What a thread does; threads are numbered in the order of their arrivals. -/
inductive Step where
  | arrive (mode : Mode)
  | check (k : Nat)
  | sleep (k : Nat)
  | unlock (k : Nat)
  | notify (k : Nat)
  | relock (k : Nat)
  | take (k : Nat)
  | fail (k : Nat)
  | drop (k : Nat)
  | leave (k : Nat)
deriving DecidableEq, Repr

/-- A thread that is through with the gate does something with the data. -/
def use? (s : Monitor) (k : Nat) (move : Move) : Option Monitor :=
  if s.points[k]? = some .through then do
    let callers ← s.callers.next? move
    some { s with callers }
  else none

/-- A thread comes back for the gate to go out, and tells the others. -/
def goOut? (s : Monitor) (k : Nat) (move : Move) : Option Monitor :=
  if s.points[k]? = some .through ∧ s.owner = none then do
    let callers ← s.callers.next? move
    some { callers, owner := some k, points := s.points.set k (.changed true) }
  else none

/-- What a step leads to, if it can be made. Readers that were admitted tell the others, since the next
in line may be a reader too; writers do not. -/
def next? (s : Monitor) : Step → Option Monitor
  | .arrive mode =>
    if s.owner = none then do
      let callers ← s.callers.next? (.arrive mode)
      some { callers, owner := some s.points.length, points := s.points ++ [.checking] }
    else none
  | .check k =>
    if s.points[k]? = some .checking then do
      let c ← s.callers.all[k]?
      if s.callers.gate.admits c.mode c.ticket then
        let callers ← s.callers.next? (.enter k)
        some { s with callers, points := s.points.set k (.changed (c.mode == .read)) }
      else some { s with points := s.points.set k .refused }
    else none
  | .sleep k =>
    if s.points[k]? = some .refused then
      some { s with owner := none, points := s.points.set k .asleep }
    else none
  | .unlock k =>
    match s.points[k]? with
    | some (.changed announces) =>
      let point := if announces then Point.announcing else .through
      some { s with owner := none, points := s.points.set k point }
    | _ => none
  | .notify k =>
    if s.points[k]? = some .announcing then
      some { s with points := (s.points.set k .through).map Point.wake }
    else none
  | .relock k =>
    if s.points[k]? = some .woken ∧ s.owner = none then
      some { s with owner := some k, points := s.points.set k .checking }
    else none
  | .take k => s.use? k (.take k)
  | .drop k => s.use? k (.drop k)
  | .fail k => s.goOut? k (.fail k)
  | .leave k => s.goOut? k (.leave k)

def run? (s : Monitor) (steps : List Step) : Option Monitor := steps.foldlM next? s

end Monitor

end AssetGroups.Lock
