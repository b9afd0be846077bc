import AssetGroups.Json.Source
import AssetGroups.Text.Utf8

/-!
Reading JSON: from a text to its tree. The grammar is taken strictly; white space is space, tab, line
feed and carriage return.
-/

namespace AssetGroups.Json

open AssetGroups.Text

/-! ## Strings -/

/-- A part of a string: a character, a 16-bit unit written `\uXXXX`, or an octet of no character. -/
inductive StringPart where
  | char (c : Char)
  | unit (n : Nat)
  | stray

namespace StringPart

def isHigh (n : Nat) : Bool := 0xD800 ≤ n && n < 0xDC00

def isLow (n : Nat) : Bool := 0xDC00 ≤ n && n < 0xE000

/-- The text of a string. A high surrogate has to be followed at once by a low one. -/
def text? : List StringPart → Option (List Char)
  | [] => some []
  | .char c :: ps => (text? ps).map (c :: ·)
  | .stray :: _ => none
  | .unit n :: .unit m :: ps =>
    if isHigh n then
      if isLow m then
        (text? ps).map (Char.ofNat (0x10000 + (n - 0xD800) * 0x400 + (m - 0xDC00)) :: ·)
      else none
    else if isLow n then none
    else (text? (.unit m :: ps)).map (Char.ofNat n :: ·)
  | .unit n :: ps =>
    if isHigh n || isLow n then none else (text? ps).map (Char.ofNat n :: ·)

end StringPart

def hexUnit? (a b c d : Char) : Option Nat :=
  match hexDigit? a, hexDigit? b, hexDigit? c, hexDigit? d with
  | some a, some b, some c, some d => some (((a * 16 + b) * 16 + c) * 16 + d)
  | _, _, _, _ => none

/-- The character that a backslash and the given one stand for. -/
def escaped? : Char → Option Char
  | '"' => some '"'
  | '\\' => some '\\'
  | '/' => some '/'
  | 'b' => some '\x08'
  | 'f' => some '\x0c'
  | 'n' => some '\n'
  | 'r' => some '\r'
  | 't' => some '\t'
  | _ => none

/-- Reads a string whose opening quote was read, up to and with its closing quote. -/
def readParts : Scanned → Option (List StringPart × Scanned)
  | [] => none
  | none :: t => (readParts t).map fun (ps, rest) => (.stray :: ps, rest)
  | some '"' :: t => some ([], t)
  | some '\\' :: some 'u' :: some a :: some b :: some c :: some d :: t =>
    match hexUnit? a b c d with
    | some n => (readParts t).map fun (ps, rest) => (.unit n :: ps, rest)
    | none => none
  | some '\\' :: some e :: t =>
    match escaped? e with
    | some c => (readParts t).map fun (ps, rest) => (.char c :: ps, rest)
    | none => none
  | some '\\' :: _ => none
  | some c :: t =>
    if c.toNat < 0x20 then none
    else (readParts t).map fun (ps, rest) => (.char c :: ps, rest)

def readString (t : Scanned) : Option (Option String × Scanned) :=
  (readParts t).map fun (ps, rest) => ((StringPart.text? ps).map String.ofList, rest)

/-! ## Numbers -/

/-- The digits at the front of a text. -/
def readDigits : Scanned → List Nat × Scanned
  | some c :: t =>
    match digitOf? c with
    | some d => let (ds, rest) := readDigits t; (d :: ds, rest)
    | none => ([], some c :: t)
  | t => ([], t)

/-- The whole part: one zero, or digits that do not begin with zero. -/
def readWhole (t : Scanned) : Option (List Nat × Scanned) :=
  match readDigits t with
  | ([], _) => none
  | ([0], rest) => some ([0], rest)
  | (0 :: _, _) => none
  | (ds, rest) => some (ds, rest)

def readFraction : Scanned → Option (List Nat × Scanned)
  | some '.' :: t =>
    match readDigits t with
    | ([], _) => none
    | (ds, rest) => some (ds, rest)
  | t => some ([], t)

def readPower (negative : Bool) (t : Scanned) : Option (Option Int × Scanned) :=
  match readDigits t with
  | ([], _) => none
  | (ds, rest) =>
    some (some (if negative then -(ofDigits ds : Int) else (ofDigits ds : Int)), rest)

def readExponent : Scanned → Option (Option Int × Scanned)
  | some e :: t =>
    if e = 'e' ∨ e = 'E' then
      match t with
      | some '+' :: t => readPower false t
      | some '-' :: t => readPower true t
      | t => readPower false t
    else some (none, some e :: t)
  | t => some (none, t)

/-- Reads a numeral after its sign. -/
def readUnsigned (negative : Bool) (t : Scanned) : Option (Numeral × Scanned) :=
  match readWhole t with
  | none => none
  | some (whole, t) =>
    match readFraction t with
    | none => none
    | some (fraction, t) =>
      match readExponent t with
      | none => none
      | some (exponent, t) => some (⟨negative, whole, fraction, exponent⟩, t)

def readNumeral : Scanned → Option (Numeral × Scanned)
  | some '-' :: t => readUnsigned true t
  | t => readUnsigned false t

/-! ## Values -/

def isSpace (c : Char) : Bool := c == ' ' || c == '\t' || c == '\n' || c == '\r'

def skipSpace : Scanned → Scanned
  | some c :: t => if isSpace c then skipSpace t else some c :: t
  | t => t

/-- What follows a word at the front of a text, if it stands there. -/
def afterWord : List Char → Scanned → Option Scanned
  | [], t => some t
  | w :: ws, some c :: t => if w = c then afterWord ws t else none
  | _, _ => none

/-- The tree of one of the words and numbers, which begin with `c`. -/
def readPlain (c : Char) (t : Scanned) : Source × Scanned :=
  let word (w : String) (s : Source) : Source × Scanned :=
    match afterWord w.toList t with
    | some rest => (s, rest)
    | none => (.broken, [])
  if c = 'n' then word "null" .null
  else if c = 't' then word "true" (.bool true)
  else if c = 'f' then word "false" (.bool false)
  else
    match readNumeral t with
    | some (n, rest) => (.number n, rest)
    | none => (.broken, [])

mutual

/-- Reads a value; every step spends some of the fuel, of which twice the length of the text is
enough. -/
def readValue : (fuel : Nat) → Scanned → Source × Scanned
  | 0, _ => (.broken, [])
  | fuel + 1, t =>
    match skipSpace t with
    | some '"' :: t =>
      match readString t with
      | some (s, rest) => (.string s, rest)
      | none => (.broken, [])
    | some '[' :: t =>
      match skipSpace t with
      | some ']' :: rest => (.list [] true, rest)
      | t =>
        let (items, closed, rest) := readItems fuel t
        (.list items closed, rest)
    | some '\x7b' :: t =>
      match skipSpace t with
      | some '\x7d' :: rest => (.object [] true, rest)
      | t =>
        let (members, closed, rest) := readMembers fuel t
        (.object members closed, rest)
    | some c :: t => readPlain c (some c :: t)
    | _ => (.broken, [])

/-- Reads the items of a list from its next item on, and whether the list was closed. -/
def readItems : (fuel : Nat) → Scanned → List Source × Bool × Scanned
  | 0, _ => ([], false, [])
  | fuel + 1, t =>
    let (item, rest) := readValue fuel t
    match skipSpace rest with
    | some ']' :: rest => ([item], true, rest)
    | some ',' :: rest =>
      let (items, closed, rest) := readItems fuel rest
      (item :: items, closed, rest)
    | _ => ([item], false, [])

/-- Reads the members of an object from its next key on, and whether the object was closed. -/
def readMembers : (fuel : Nat) → Scanned → List (Option String × Source) × Bool × Scanned
  | 0, _ => ([], false, [])
  | fuel + 1, t =>
    match skipSpace t with
    | some '"' :: t =>
      match readString t with
      | none => ([], false, [])
      | some (key, t) =>
        match skipSpace t with
        | some ':' :: t =>
          let (value, rest) := readValue fuel t
          match skipSpace rest with
          | some '\x7d' :: rest => ([(key, value)], true, rest)
          | some ',' :: rest =>
            let (members, closed, rest) := readMembers fuel rest
            ((key, value) :: members, closed, rest)
          | _ => ([(key, value)], false, [])
        | _ => ([(key, .broken)], false, [])
    | _ => ([], false, [])

end

/-- The tree of a text, and whether nothing but white space follows it. -/
def read (t : Scanned) : Source × Bool :=
  let (s, rest) := readValue (2 * t.length + 2) t
  (s, (skipSpace rest).isEmpty)

end AssetGroups.Json
