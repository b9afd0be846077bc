import AssetGroups.Json.Numeral

/-!
JSON values, and dictionaries from texts to anything, kept in ascending order of their keys.
-/

namespace AssetGroups.Json

/-! ## Dictionaries -/

/-- Entries in ascending order of their keys, no key twice. -/
abbrev Dict (α : Type) := List (String × α)

namespace Dict

variable {α : Type}

/-- Sets the entry of a key; an entry it already has is replaced. -/
def insert (k : String) (a : α) : Dict α → Dict α
  | [] => [(k, a)]
  | (k', a') :: rest =>
    if k = k' then (k, a) :: rest
    else if k < k' then (k, a) :: (k', a') :: rest
    else (k', a') :: insert k a rest

/-- Of entries with one key the last is kept. -/
def ofEntries (entries : List (String × α)) : Dict α :=
  entries.foldl (fun d e => insert e.1 e.2 d) []

def find? (k : String) (d : Dict α) : Option α := List.lookup k d

end Dict

/-! ## Values -/

inductive Value where
  | null
  | bool (b : Bool)
  | number (n : Numeral)
  | string (s : String)
  | list (items : List Value)
  | object (members : List (String × Value))
deriving Repr, Inhabited

namespace Value

def nat (n : Nat) : Value := .number (.ofNat n)

/-- An object with the members that are present. -/
def ofMembers (members : List (String × Option Value)) : Value :=
  .object (members.filterMap fun m => m.2.map (m.1, ·))

mutual

/-- How many objects and lists enclose the most deeply nested place. -/
def depth : Value → Nat
  | .list items => depthOfItems items + 1
  | .object members => depthOfMembers members + 1
  | _ => 0

def depthOfItems : List Value → Nat
  | [] => 0
  | v :: vs => max (depth v) (depthOfItems vs)

def depthOfMembers : List (String × Value) → Nat
  | [] => 0
  | (_, v) :: ms => max (depth v) (depthOfMembers ms)

end

end Value

end AssetGroups.Json
