/-!
Natural numbers as digits, and the numerals that fit in a word of 64 bits.
-/

namespace AssetGroups.Text

def digitOf? (c : Char) : Option Nat :=
  if '0' ≤ c ∧ c ≤ '9' then some (c.toNat - '0'.toNat) else none

def hexDigit? (c : Char) : Option Nat :=
  if '0' ≤ c ∧ c ≤ '9' then some (c.toNat - '0'.toNat)
  else if 'a' ≤ c ∧ c ≤ 'f' then some (c.toNat - 'a'.toNat + 10)
  else if 'A' ≤ c ∧ c ≤ 'F' then some (c.toNat - 'A'.toNat + 10)
  else none

def ofDigits (ds : List Nat) : Nat := ds.foldl (fun n d => 10 * n + d) 0

/-- The decimal digits of a number, most significant digit first; zero has one digit. -/
def digitsOf (n : Nat) : List Nat := if n < 10 then [n] else digitsOf (n / 10) ++ [n % 10]

theorem ofDigits_digitsOf (n : Nat) : ofDigits (digitsOf n) = n := by
  rw [digitsOf]
  split
  · simp [ofDigits]
  · have h := ofDigits_digitsOf (n / 10)
    simp only [ofDigits, List.foldl_append, List.foldl_cons, List.foldl_nil] at h ⊢
    omega

/-- The least number that no word of 64 bits holds. -/
def wordLimit : Nat := Nat.pow 2 64

/-- Reads a text that is a numeral and nothing else: digits, a `+` before them allowed, of a number
below `wordLimit`. -/
def readWord? (s : List Char) : Option Nat :=
  let body := match s with
    | '+' :: r => r
    | _ => s
  if body.isEmpty then none
  else
    match body.mapM digitOf? with
    | some ds => if ofDigits ds < wordLimit then some (ofDigits ds) else none
    | none => none

end AssetGroups.Text
