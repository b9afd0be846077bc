import AssetGroups.Json.Value

/-!
What a JSON text says, member by member and in its own order, up to the place where it stops being
JSON. A reader of one type can so tell which comes first, a fault of the text or a member that does
not fit the type, and a member that nobody asks for is passed over without being understood.
-/

namespace AssetGroups.Json

/-- The tree of a text. `broken` stands where the text stops being JSON; `closed` tells whether the
closing bracket was found. A string that holds no text (an unpaired surrogate, a stray octet) is
`none`. -/
inductive Source where
  | broken
  | null
  | bool (b : Bool)
  | number (n : Numeral)
  | string (s : Option String)
  | list (items : List Source) (closed : Bool)
  | object (members : List (Option String × Source)) (closed : Bool)
deriving Repr, Inhabited

/-- Why a text is not taken for a value of a type: the text is at fault, or it says something else. -/
inductive Fault where
  | malformed
  | mismatch
deriving DecidableEq, Repr

namespace Source

mutual

/-- Whether the text is JSON throughout. Strings need not hold a text and numbers no double. -/
def isWhole : Source → Bool
  | .broken => false
  | .list items closed => allWhole items && closed
  | .object members closed => membersWhole members && closed
  | _ => true

def allWhole : List Source → Bool
  | [] => true
  | s :: ss => isWhole s && allWhole ss

def membersWhole : List (Option String × Source) → Bool
  | [] => true
  | (_, s) :: ms => isWhole s && membersWhole ms

end

mutual

/-- The value of a text, of repeated keys the last one, if all of it can be kept: strings hold
texts, numbers are within the doubles, and no more than `room` objects and lists are open at once. -/
def value? (room : Nat) : Source → Option Value
  | .broken => none
  | .null => some .null
  | .bool b => some (.bool b)
  | .number n => if n.inRange then some (.number n) else none
  | .string s => s.map .string
  | .list items closed =>
    if closed ∧ 0 < room then (values? (room - 1) items).map .list else none
  | .object members closed =>
    if closed ∧ 0 < room then
      (entries? (room - 1) members).map fun es => .object (Dict.ofEntries es)
    else none

def values? (room : Nat) : List Source → Option (List Value)
  | [] => some []
  | s :: ss =>
    match value? room s, values? room ss with
    | some v, some vs => some (v :: vs)
    | _, _ => none

def entries? (room : Nat) : List (Option String × Source) → Option (List (String × Value))
  | [] => some []
  | (k, s) :: ms =>
    match k, value? room s, entries? room ms with
    | some k, some v, some es => some ((k, v) :: es)
    | _, _, _ => none

end

mutual

/-- A value as the text that writes it would be read. -/
def ofValue : Value → Source
  | .null => .null
  | .bool b => .bool b
  | .number n => .number n
  | .string s => .string (some s)
  | .list items => .list (ofValues items) true
  | .object members => .object (ofEntries members) true

def ofValues : List Value → List Source
  | [] => []
  | v :: vs => ofValue v :: ofValues vs

def ofEntries : List (String × Value) → List (Option String × Source)
  | [] => []
  | (k, v) :: es => (some k, ofValue v) :: ofEntries es

end

/-- Whether a tree is an object with the given key. -/
def hasKey (key : String) : Source → Bool
  | .object members _ => members.any (·.1 == some key)
  | _ => false

/-- The fault of a tree that stands where something else is wanted: a string or a number is read to
its end before it is refused, of a list or an object only the opening bracket. -/
def fault : Source → Fault
  | .broken => .malformed
  | .string none => .malformed
  | .number n => if n.inRange then .mismatch else .malformed
  | _ => .mismatch

end Source

end AssetGroups.Json
