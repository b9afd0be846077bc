import AssetGroups.Toml.Lexeme
import AssetGroups.Toml.Word

/-!
Reading TOML: from a text to the lines of a document, and to the table that they describe.
-/

namespace AssetGroups.Toml

/-! ## Values -/

/-- How many arrays and inline tables may be open at once. -/
def nestingLimit : Nat := 80

mutual

/-- Reads a value, inside of which `room` more arrays and tables may be open at once; every step
spends some of the fuel. -/
def readValue : (fuel room : Nat) → List Char → Option (Toml × List Char)
  | 0, _, _ => none
  | fuel + 1, room, s =>
    match s, room with
    | '"' :: s, _ => (readString '"' s).map fun (t, rest) => (.string (String.ofList t), rest)
    | '\x27' :: s, _ => (readString '\x27' s).map fun (t, rest) => (.string (String.ofList t), rest)
    | '[' :: _, 0 => none
    | '\x7b' :: _, 0 => none
    | '[' :: s, room + 1 => (readItems fuel room s).map fun (items, rest) => (.array items, rest)
    | '\x7b' :: s, room + 1 =>
      (readInline fuel room s).bind fun (lines, rest) =>
        (ofStatements lines).map fun entries => (.table entries, rest)
    | s, _ =>
      let w := takeWord s
      (word? w).map fun v => (v, s.drop w.length)

/-- Reads the items of an array from its next item on; a comma may stand after the last one. -/
def readItems : (fuel room : Nat) → List Char → Option (List Toml × List Char)
  | 0, _, _ => none
  | fuel + 1, room, s =>
    match skipLines (s.length + 1) s with
    | ']' :: rest => some ([], rest)
    | s =>
      (readValue fuel room s).bind fun (v, s) =>
        match skipLines (s.length + 1) s with
        | ']' :: rest => some ([v], rest)
        | ',' :: s => (readItems fuel room s).map fun (vs, rest) => (v :: vs, rest)
        | _ => none

/-- Reads the entries of an inline table from its next entry on; a comma may stand after the last
one, and line breaks and comments around every part of an entry. -/
def readInline : (fuel room : Nat) → List Char → Option (List Statement × List Char)
  | 0, _, _ => none
  | fuel + 1, room, s =>
    match skipLines (s.length + 1) s with
    | '\x7d' :: rest => some ([], rest)
    | s =>
      (readPath pathLimit s).bind fun (path, s) =>
        match skipLines (s.length + 1) s with
        | '=' :: s =>
          (readValue fuel room (skipLines (s.length + 1) s)).bind fun (v, s) =>
            match skipLines (s.length + 1) s with
            | '\x7d' :: rest => some ([.assign path v], rest)
            | ',' :: s =>
              (readInline fuel room s).map fun (lines, rest) => (.assign path v :: lines, rest)
            | _ => none
        | _ => none

end

/-! ## Lines -/

/-- Reads a line that is neither empty nor only a comment. -/
def readStatement (s : List Char) : Option (Statement × List Char) :=
  match s with
  | '[' :: '[' :: s =>
    (readPath pathLimit s).bind fun (path, s) =>
      match s with
      | ']' :: ']' :: rest => some (.arrayHeader path, rest)
      | _ => none
  | '[' :: s =>
    (readPath pathLimit s).bind fun (path, s) =>
      match s with
      | ']' :: rest => some (.header path, rest)
      | _ => none
  | s =>
    (readPath pathLimit s).bind fun (path, s) =>
      match s with
      | '=' :: s =>
        (readValue (2 * s.length + 2) nestingLimit (skipSpacing s)).map fun (v, rest) =>
          (.assign path v, rest)
      | _ => none

def readStatements : (fuel : Nat) → List Char → Option (List Statement)
  | 0, _ => none
  | fuel + 1, s =>
    match skipLines (s.length + 1) s with
    | [] => some []
    | s =>
      (readStatement s).bind fun (line, s) =>
        (afterLine s).bind fun s => (readStatements fuel s).map (line :: ·)

/-- A text without the byte order mark that may stand before it. -/
def withoutMark : List Char → List Char
  | '\ufeff' :: s => s
  | s => s

def ofText? (text : List Char) : Option (List (String × Toml)) :=
  (readStatements (text.length + 1) (withoutMark text)).bind ofStatements

end AssetGroups.Toml
