import AssetGroups.Text.Digits

/-!
The pieces of a TOML text: blanks, comments and line breaks, strings, keys.
-/

namespace AssetGroups.Toml

open Text

/-! ## Characters -/

def isSpacing (c : Char) : Bool := c == ' ' || c == '\t'

def skipSpacing (s : List Char) : List Char := s.dropWhile isSpacing

def isPrintable (c : Char) : Bool := c == '\t' || (0x20 ≤ c.toNat && c.toNat != 0x7F)

def afterBreak : List Char → Option (List Char)
  | '\n' :: s => some s
  | '\r' :: '\n' :: s => some s
  | _ => none

def skipComment : List Char → List Char
  | '#' :: s => s.dropWhile isPrintable
  | s => s

/-- What follows the end of a line; nothing may stand before it but a comment. -/
def afterLine (s : List Char) : Option (List Char) :=
  match skipComment (skipSpacing s) with
  | [] => some []
  | s => afterBreak s

/-- A text without the blanks, comments and line breaks at its front. -/
def skipLines : (fuel : Nat) → List Char → List Char
  | 0, s => s
  | fuel + 1, s =>
    let s := skipComment (skipSpacing s)
    match afterBreak s with
    | some s => skipLines fuel s
    | none => s

/-- A text without the blanks and line breaks at its front. -/
def skipBlankLines : List Char → List Char
  | ' ' :: s => skipBlankLines s
  | '\t' :: s => skipBlankLines s
  | '\n' :: s => skipBlankLines s
  | '\r' :: '\n' :: s => skipBlankLines s
  | s => s

/-! ## Strings -/

def hexChar? (digits : List Char) : Option Char :=
  (digits.mapM hexDigit?).bind fun ds =>
    let n := ds.foldl (fun n d => 16 * n + d) 0
    if n.isValidChar then some (Char.ofNat n) else none

def readEscape : List Char → Option (Char × List Char)
  | 'b' :: s => some ('\x08', s)
  | 't' :: s => some ('\t', s)
  | 'n' :: s => some ('\n', s)
  | 'f' :: s => some ('\x0c', s)
  | 'r' :: s => some ('\r', s)
  | 'e' :: s => some ('\x1b', s)
  | '"' :: s => some ('"', s)
  | '\\' :: s => some ('\\', s)
  | 'x' :: s => if s.length < 2 then none else (hexChar? (s.take 2)).map (·, s.drop 2)
  | 'u' :: s => if s.length < 4 then none else (hexChar? (s.take 4)).map (·, s.drop 4)
  | 'U' :: s => if s.length < 8 then none else (hexChar? (s.take 8)).map (·, s.drop 8)
  | _ => none

/-- How a string is written: by which quote it ends, whether it goes over several lines. -/
structure Quoting where
  quote : Char
  escapes : Bool
  lines : Bool
deriving DecidableEq, Repr

/-- Of `n` quotes in a row, how many belong to a string of several lines that they close: they close
it if there are three, and up to two more may stand before those. -/
def closing (n : Nat) : Option Nat := if 3 ≤ n ∧ n ≤ 5 then some (n - 3) else none

/-- Reads the rest of a string up to and with its closing quotes. Line breaks stay as they are, but a
backslash takes away the one at the end of its line with all blanks and breaks after it. -/
def readQuoted (q : Quoting) : (fuel : Nat) → List Char → Option (List Char × List Char)
  | 0, _ => none
  | _, [] => none
  | fuel + 1, c :: s =>
    if c = q.quote then
      if !q.lines then some ([], s)
      else
        let n := (s.takeWhile (· == q.quote)).length + 1
        if n < 3 then
          (readQuoted q fuel (s.drop (n - 1))).map fun (t, rest) => (List.replicate n c ++ t, rest)
        else (closing n).map fun k => (List.replicate k c, s.drop (n - 1))
    else if c = '\\' ∧ q.escapes then
      if q.lines ∧ (afterBreak (skipSpacing s)).isSome then
        readQuoted q fuel (skipBlankLines s)
      else
        (readEscape s).bind fun (c, s) => (readQuoted q fuel s).map fun (t, rest) => (c :: t, rest)
    else if isPrintable c ∨ (q.lines ∧ (afterBreak (c :: s)).isSome) then
      (readQuoted q fuel s).map fun (t, rest) => (c :: t, rest)
    else none

/-- Reads a string of one line whose quote was read. -/
def readShort (quote : Char) (s : List Char) : Option (List Char × List Char) :=
  readQuoted ⟨quote, quote == '"', false⟩ (s.length + 1) s

/-- Reads a string whose first quote was read; a line break right after three quotes is dropped. -/
def readString (quote : Char) (s : List Char) : Option (List Char × List Char) :=
  match s with
  | a :: b :: rest =>
    if a = quote ∧ b = quote then
      readQuoted ⟨quote, quote == '"', true⟩ (rest.length + 1) ((afterBreak rest).getD rest)
    else readShort quote s
  | _ => readShort quote s

/-! ## Keys -/

def isBareKey (c : Char) : Bool := c.isAlphanum || c == '-' || c == '_'

def readKey : List Char → Option (String × List Char)
  | '"' :: s => (readShort '"' s).map fun (k, rest) => (String.ofList k, rest)
  | '\x27' :: s => (readShort '\x27' s).map fun (k, rest) => (String.ofList k, rest)
  | s =>
    let k := s.takeWhile isBareKey
    if k.isEmpty then none else some (String.ofList k, s.drop k.length)

/-- How many keys a path may have. -/
def pathLimit : Nat := 80

/-- Reads at most `room` keys with dots between them, and the blanks around each. -/
def readPath : (room : Nat) → List Char → Option (List String × List Char)
  | 0, _ => none
  | room + 1, s =>
    (readKey (skipSpacing s)).bind fun (k, s) =>
      match skipSpacing s with
      | '.' :: s => (readPath room s).map fun (path, rest) => (k :: path, rest)
      | s => some ([k], s)

end AssetGroups.Toml
