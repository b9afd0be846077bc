import AssetGroups.Lock.Callers

/-!
The data behind an access lock: a list to which every writer adds its name as soon as it has the data.
Whoever gets the data sees what the list holds then.
-/

namespace AssetGroups.Lock

/-- What a caller sees of the data when it gets them, its own name included if it writes. -/
structure View where
  ticket : Nat
  mode : Mode
  data : List String
deriving DecidableEq, Repr

/-- The callers with their data, and what was seen, in the order in which the data were had. -/
structure Register where
  callers : Callers := {}
  data : List String := []
  views : List View := []
deriving DecidableEq, Repr

namespace Register

/-- The tickets of the writers that had the data, in the order in which they had them. -/
def writers (s : Register) : List Nat := (s.views.filter (·.mode == .write)).map (·.ticket)

/-- A caller gets the data. -/
def see (s : Register) (name : String) (c : Caller) : Register :=
  let data := match c.mode with
    | .read => s.data
    | .write => s.data ++ [name]
  { s with data, views := s.views ++ [{ ticket := c.ticket, mode := c.mode, data }] }

/-- What a move of the callers leads to; `names` gives the name of each, in the order of their
arrivals. -/
def next? (names : Nat → String) (s : Register) (move : Move) : Option Register := do
  let callers ← s.callers.next? move
  match move with
  | .take k => do
    let c ← s.callers.all[k]?
    some { s.see (names k) c with callers }
  | _ => some { s with callers }

def run? (names : Nat → String) (s : Register) (moves : List Move) : Option Register :=
  moves.foldlM (next? names) s

end Register

end AssetGroups.Lock
