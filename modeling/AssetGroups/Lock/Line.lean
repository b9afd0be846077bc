import AssetGroups.Error
import AssetGroups.Lock.Gate

/-!
Named actors before a gate, with the data that it guards: a list to which every writer adds its name
when it is let in. After each step everybody who can go in has gone in.
-/

namespace AssetGroups.Lock

/-- Whether writers also take a lock file, and whether it can be had. -/
inductive Durability where
  | inProcess
  | lockFile
  | noLockFile (refusal : GroupError)
deriving Repr

/-- An actor with the mode of its acquisition. -/
structure Actor where
  name : String
  mode : Mode
deriving DecidableEq, Repr

structure Waiter where
  actor : Actor
  ticket : Nat
deriving DecidableEq, Repr

/-- What an actor meets: it is let in and sees the data, or its acquisition fails. -/
inductive Outcome where
  | granted (mode : Mode) (seen : List String)
  | failed (e : GroupError)
deriving Repr

/-- Those who hold the lock and those who wait for it, in the order of their tickets. -/
structure Line where
  durability : Durability := .inProcess
  gate : Gate := {}
  data : List String := []
  holders : List Actor := []
  waiters : List Waiter := []
deriving Repr

inductive Request where
  | acquire (mode : Mode) (who : String)
  | release (who : String)
deriving DecidableEq, Repr

namespace Line

def isDurable (l : Line) : Bool :=
  match l.durability with
  | .inProcess => false
  | _ => true

def holds (l : Line) (who : String) : Bool := l.holders.any (·.name == who)

def waits (l : Line) (who : String) : Bool := l.waiters.any (·.actor.name == who)

/-- Lets an actor in. A writer that cannot get the lock file goes out again at once. -/
def enter (l : Line) (a : Actor) : Outcome × Line :=
  let l := { l with gate := l.gate.letIn a.mode }
  match a.mode, l.durability with
  | .read, _ => (.granted .read l.data, { l with holders := l.holders ++ [a] })
  | .write, .noLockFile e => (.failed e, { l with gate := l.gate.release .write })
  | .write, _ =>
    let data := l.data ++ [a.name]
    (.granted .write data, { l with data, holders := l.holders ++ [a] })

/-- Lets in who can go in, from the front of the line on; the others keep waiting. -/
def settleFrom (l : Line) : List Waiter → List (String × Outcome) × Line
  | [] => ([], { l with waiters := [] })
  | w :: ws =>
    if l.gate.admits w.actor.mode w.ticket then
      let (outcome, l) := l.enter w.actor
      let (outcomes, l) := l.settleFrom ws
      ((w.actor.name, outcome) :: outcomes, l)
    else ([], { l with waiters := w :: ws })

def settle (l : Line) : List (String × Outcome) × Line := l.settleFrom l.waiters

/-- Draws a ticket for an actor and puts it at the end of the line. -/
def join (l : Line) (a : Actor) : Line :=
  let (ticket, gate) := l.gate.draw
  { l with gate, waiters := l.waiters ++ [⟨a, ticket⟩] }

/-- A holder leaves. -/
def leave (l : Line) (a : Actor) : Line :=
  { l with gate := l.gate.release a.mode, holders := l.holders.filter (·.name != a.name) }

/-- One step: what it brought to whom, or `none` if the request does not fit: an actor has one
acquisition at a time, and releases only what it holds. -/
def step (l : Line) : Request → Option (List (String × Outcome) × Line)
  | .acquire mode who =>
    if l.holds who || l.waits who then none else some (l.join ⟨who, mode⟩).settle
  | .release who =>
    match l.holders.find? (·.name == who) with
    | none => none
    | some a => some (l.leave a).settle

/-- Steps one after another, each of which fits, and what they brought to whom. -/
def run? (l : Line) : List Request → Option (List (String × Outcome) × Line)
  | [] => some ([], l)
  | request :: requests => do
    let (outcomes, l) ← l.step request
    let (more, l) ← l.run? requests
    some (outcomes ++ more, l)

/-- The holder whose name comes first. -/
def firstHolder? (l : Line) : Option Actor :=
  (l.holders.mergeSort fun a b => a.name ≤ b.name).head?

/-- Holders leave in the order of their names until nobody is left; each who leaves makes the line
shorter by one. -/
def empty (l : Line) : Line :=
  go (l.holders.length + l.waiters.length) l
where
  go : Nat → Line → Line
    | 0, l => l
    | n + 1, l =>
      match l.firstHolder? with
      | none => l
      | some a => go n (l.leave a).settle.2

end Line

end AssetGroups.Lock
