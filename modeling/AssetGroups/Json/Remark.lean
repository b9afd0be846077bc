import AssetGroups.Text.Digits
import AssetGroups.Text.Pieces

/-!
Remarks on a JSON text: what is said, and the line and column of the text that it is said of.
-/

namespace AssetGroups.Json

open AssetGroups.Text

/-- A remark; line 0 means that it is said of no place. -/
structure Remark where
  said : List Char
  line : Nat := 0
  column : Nat := 0
deriving DecidableEq, Repr

namespace Remark

/-- The number of a word that digits write, with nothing but digits. -/
def digits? (s : List Char) : Option Nat :=
  if s.all Char.isDigit then readWord? s else none

/-- The numbers of a line and a column at the end of a text. -/
def place? (s : List Char) : Option (Nat × Nat) :=
  let line := s.takeWhile Char.isDigit
  (afterFront " column ".toList (s.drop line.length)).bind fun column =>
    match digits? line, digits? column with
    | some l, some c => some (l, c)
    | _, _ => none

/-- A remark as a text gives it, with its place at the end if it has one. -/
def ofText (text : String) : Remark :=
  match cutAtLast " at line ".toList text.toList with
  | none => ⟨text.toList, 0, 0⟩
  | some (said, rest) =>
    match place? rest with
    | some (line, column) => ⟨said, line, column⟩
    | none => ⟨text.toList, 0, 0⟩

/-- The text of a remark. -/
def text (r : Remark) : String :=
  let said := String.ofList r.said
  if r.line = 0 then said else s!"{said} at line {r.line} column {r.column}"

end Remark

end AssetGroups.Json
