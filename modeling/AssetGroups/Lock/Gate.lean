/-!
The gate of an access lock. Whoever wants in draws a ticket and is let in when the ticket is served
and the present access allows it: readers share, a writer is alone. A waiting writer so holds back the
readers that came after it.
-/

namespace AssetGroups.Lock

inductive Access where
  | idle
  | reading (n : Nat)
  | writing
deriving DecidableEq, Repr

inductive Mode where
  | read
  | write
deriving DecidableEq, Repr

/-- `serving` is the ticket that is let in next. -/
structure Gate where
  access : Access := .idle
  nextTicket : Nat := 0
  serving : Nat := 0
deriving DecidableEq, Repr

namespace Gate

/-- Draws a ticket. -/
def draw (g : Gate) : Nat × Gate := (g.nextTicket, { g with nextTicket := g.nextTicket + 1 })

/-- Whether the present access allows one more in the mode. -/
def allows (g : Gate) : Mode → Bool
  | .read => g.access != .writing
  | .write => g.access == .idle

def admits (g : Gate) (mode : Mode) (ticket : Nat) : Bool := g.serving == ticket && g.allows mode

/-- Lets the served ticket in. -/
def letIn (g : Gate) : Mode → Gate
  | .read =>
    let n := match g.access with
      | .reading n => n + 1
      | _ => 1
    { g with access := .reading n, serving := g.serving + 1 }
  | .write => { g with access := .writing, serving := g.serving + 1 }

/-- One leaves. -/
def release (g : Gate) : Mode → Gate
  | .read =>
    let access := match g.access with
      | .reading n => if 1 < n then Access.reading (n - 1) else .idle
      | _ => .idle
    { g with access }
  | .write => { g with access := .idle }

end Gate

end AssetGroups.Lock
