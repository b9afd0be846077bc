import AssetGroups.Lock.Gate

/-!
Callers of an access lock side by side, each with one acquisition. A caller draws a ticket, is let in by
the gate, takes the data, gives the data back and leaves. A writer may need a lock file too, once it is
let in; one that cannot have it leaves without having touched the data.
-/

namespace AssetGroups.Lock

/-- How far an acquisition has come. Between the gate and the data stands the lock file of a writer, and
whoever has given the data back is still inside until it leaves. -/
inductive Phase where
  | waiting
  | admitted
  | holding
  | leaving
  | gone
deriving DecidableEq, Repr

structure Caller where
  mode : Mode
  ticket : Nat
  phase : Phase := .waiting
deriving DecidableEq, Repr

/-- Whether a caller was let in and has not left. -/
def Caller.isInside (c : Caller) : Bool := c.phase != .waiting && c.phase != .gone

/-- All who ever called, in the order of their arrivals, and the tickets in the order in which they were
let in. -/
structure Callers where
  gate : Gate := {}
  all : List Caller := []
  admissions : List Nat := []
deriving DecidableEq, Repr

/-- What a caller does; callers are numbered in the order of their arrivals. -/
inductive Move where
  | arrive (mode : Mode)
  | enter (k : Nat)
  | take (k : Nat)
  | fail (k : Nat)
  | drop (k : Nat)
  | leave (k : Nat)
deriving DecidableEq, Repr

namespace Callers

/-- How many callers of a mode are inside. -/
def inside (s : Callers) (mode : Mode) : Nat := s.all.countP fun c => c.mode == mode && c.isInside

/-- Whether nobody holds the data in a way that keeps others from having it in the mode. -/
def dataFree (s : Callers) (mode : Mode) : Bool :=
  s.all.all fun c => c.phase != .holding || (mode == .read && c.mode == .read)

/-- The caller goes on to a phase, and the gate changes with it. -/
def proceed (s : Callers) (k : Nat) (c : Caller) (phase : Phase) (gate : Gate) : Callers :=
  { s with gate, all := s.all.set k { c with phase } }

/-- What a move leads to, if it can be made. Nobody asks whether the data are free. -/
def next? (s : Callers) : Move → Option Callers
  | .arrive mode =>
    let (ticket, gate) := s.gate.draw
    some { s with gate, all := s.all ++ [{ mode, ticket }] }
  | .enter k => do
    let c ← s.all[k]?
    if c.phase = .waiting ∧ s.gate.admits c.mode c.ticket then
      some { s.proceed k c .admitted (s.gate.letIn c.mode) with
        admissions := s.admissions ++ [c.ticket] }
    else none
  | .take k => do
    let c ← s.all[k]?
    if c.phase = .admitted then some (s.proceed k c .holding s.gate) else none
  | .fail k => do
    let c ← s.all[k]?
    if c.phase = .admitted ∧ c.mode = .write then
      some (s.proceed k c .gone (s.gate.release c.mode))
    else none
  | .drop k => do
    let c ← s.all[k]?
    if c.phase = .holding then some (s.proceed k c .leaving s.gate) else none
  | .leave k => do
    let c ← s.all[k]?
    if c.phase = .leaving then some (s.proceed k c .gone (s.gate.release c.mode)) else none

def run? (s : Callers) (moves : List Move) : Option Callers := moves.foldlM next? s

end Callers

end AssetGroups.Lock
