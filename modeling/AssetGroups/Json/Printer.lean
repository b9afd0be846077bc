import AssetGroups.Json.Value

/-!
Writing JSON, on one line or indented.
-/

namespace AssetGroups.Json

/-- How values are laid out: `none` on one line without blanks, `some k` with every item on a line of
its own, `k` blanks further in than its list or object. -/
structure Layout where
  indent : Option Nat

namespace Layout

def oneLine : Layout := ⟨none⟩

def indented : Layout := ⟨some 2⟩

def lineBreak (l : Layout) (level : Nat) : List Char :=
  match l.indent with
  | none => []
  | some k => '\n' :: List.replicate (k * level) ' '

def colon (l : Layout) : List Char := if l.indent.isSome then [':', ' '] else [':']

end Layout

/-- A character of a string: quote, backslash and the control characters below U+0020 are escaped,
by a letter where there is one. -/
def escape (c : Char) : List Char :=
  if c = '"' then ['\\', '"']
  else if c = '\\' then ['\\', '\\']
  else if c = '\x08' then ['\\', 'b']
  else if c = '\t' then ['\\', 't']
  else if c = '\n' then ['\\', 'n']
  else if c = '\x0c' then ['\\', 'f']
  else if c = '\r' then ['\\', 'r']
  else if c.toNat < 0x20 then
    ['\\', 'u', '0', '0', Nat.digitChar (c.toNat / 16), Nat.digitChar (c.toNat % 16)]
  else [c]

def quoted (s : String) (rest : List Char) : List Char :=
  '"' :: s.toList.foldr (fun c t => escape c ++ t) ('"' :: rest)

namespace Numeral

def chars (n : Numeral) : List Char :=
  (if n.negative then ['-'] else []) ++ n.whole.map Nat.digitChar ++
    (if n.fraction.isEmpty then [] else '.' :: n.fraction.map Nat.digitChar) ++
    match n.exponent with
    | none => []
    | some e => 'e' :: (toString e).toList

end Numeral

namespace Value

mutual

/-- The text of a value that stands `level` lists and objects deep, before `rest`. -/
def write (l : Layout) (level : Nat) : Value → (rest : List Char) → List Char
  | .null, rest => "null".toList ++ rest
  | .bool true, rest => "true".toList ++ rest
  | .bool false, rest => "false".toList ++ rest
  | .number n, rest => n.chars ++ rest
  | .string s, rest => quoted s rest
  | .list [], rest => '[' :: ']' :: rest
  | .list (v :: vs), rest =>
    '[' :: (l.lineBreak (level + 1) ++ write l (level + 1) v
      (writeItems l (level + 1) vs (l.lineBreak level ++ ']' :: rest)))
  | .object [], rest => '\x7b' :: '\x7d' :: rest
  | .object ((k, v) :: ms), rest =>
    '\x7b' :: (l.lineBreak (level + 1) ++ quoted k (l.colon ++ write l (level + 1) v
      (writeMembers l (level + 1) ms (l.lineBreak level ++ '\x7d' :: rest))))

/-- The items after the first, each behind a comma. -/
def writeItems (l : Layout) (level : Nat) : List Value → (rest : List Char) → List Char
  | [], rest => rest
  | v :: vs, rest => ',' :: (l.lineBreak level ++ write l level v (writeItems l level vs rest))

/-- The members after the first, each behind a comma. -/
def writeMembers (l : Layout) (level : Nat) :
    List (String × Value) → (rest : List Char) → List Char
  | [], rest => rest
  | (k, v) :: ms, rest =>
    ',' :: (l.lineBreak level ++
      quoted k (l.colon ++ write l level v (writeMembers l level ms rest)))

end

/-- The value on one line. -/
def compact (v : Value) : String := String.ofList (v.write .oneLine 0 [])

/-- The value with two blanks of indentation a level, and no line break at the end. -/
def pretty (v : Value) : String := String.ofList (v.write .indented 0 [])

end Value

end AssetGroups.Json
