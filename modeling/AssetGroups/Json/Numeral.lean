import AssetGroups.Number.Double
import AssetGroups.Text.Digits

/-!
Numerals of JSON as a text writes them. Two questions are asked of one: is it a natural number of a
word, and is it within the range of a double.
-/

namespace AssetGroups.Json

open AssetGroups.Text

/-- A numeral as it is written: sign, digits before and after the point, exponent. -/
structure Numeral where
  negative : Bool := false
  whole : List Nat
  fraction : List Nat := []
  exponent : Option Int := none
deriving DecidableEq, Repr

namespace Numeral

def ofNat (n : Nat) : Numeral := { whole := digitsOf n }

/-- The number of a plain numeral: no sign, no point, no exponent, and below `wordLimit`. -/
def word? (n : Numeral) : Option Nat :=
  if n.negative = false ∧ n.fraction = [] ∧ n.exponent = none ∧ ofDigits n.whole < wordLimit then
    some (ofDigits n.whole)
  else none

/-! ## Range

A numeral is read as `m * 10 ^ e` with `m` below `wordLimit`: digits of the whole part that no
longer fit raise `e`, digits of the fraction that no longer fit are dropped. -/

/-- The leading digits that fit in a word, and the number of digits that do not. -/
def fitWhole (m : Nat) : List Nat → Nat × Nat
  | [] => (m, 0)
  | d :: ds => if 10 * m + d < wordLimit then fitWhole (10 * m + d) ds else (m, ds.length + 1)

/-- Goes on from `m` with the digits after the point; the second part counts the digits taken. -/
def fitFraction (m taken : Nat) : List Nat → Nat × Nat
  | [] => (m, taken)
  | d :: ds =>
    if 10 * m + d < wordLimit then fitFraction (10 * m + d) (taken + 1) ds else (m, taken)

def scaled (n : Numeral) : Nat × Int :=
  let (m, dropped) := fitWhole 0 n.whole
  let (m, taken) := fitFraction m 0 n.fraction
  (m, n.exponent.getD 0 + dropped - taken)

/-- The nearest number with 53 significant binary digits; of two, the one whose last digit is even. -/
def round53 (n : Nat) : Nat :=
  let unit := Nat.pow 2 (n.log2 - 52)
  nearestQuotient n unit * unit

/-- Whether the numeral stays within the doubles: its `m` and its power of ten are rounded first,
then their product. -/
def inRange (n : Numeral) : Bool :=
  let (m, e) := n.scaled
  m == 0 || e < 0 || (e ≤ 308 && round53 m * round53 (Nat.pow 10 e.toNat) < Double.limit)

end Numeral

end AssetGroups.Json
