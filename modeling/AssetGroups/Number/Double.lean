import AssetGroups.Number.Decimal
import AssetGroups.Text.Digits

/-!
Doubles: the numbers of 53 binary digits that a decimal number is rounded to, the fewest decimal
digits that stand for one of them, and the whole number next to it.
-/

namespace AssetGroups

/-- The whole number nearest to a quotient; of two, the even one. -/
def nearestQuotient (a b : Nat) : Nat :=
  let q := a / b
  let r := 2 * (a % b)
  if r < b then q else if b < r then q + 1 else q + q % 2

/-- A double: plus or minus `m * 2 ^ e`, an infinity, or no number at all. -/
inductive Double where
  | finite (negative : Bool) (m : Nat) (e : Int)
  | infinite (negative : Bool)
  | nan
deriving DecidableEq, Repr

namespace Double

/-- The least exponent of a double. -/
def leastExponent : Int := -1074

/-- The least number that rounds past the largest double. -/
def limit : Nat := Nat.pow 2 1024 - Nat.pow 2 970

/-- The exponent `e` of the greatest power of two that is not above `a / b`, two positive numbers. -/
def binaryOrder (a b : Nat) : Int :=
  let e : Int := (a.log2 : Int) - b.log2
  if b * Nat.pow 2 e.toNat ≤ a * Nat.pow 2 (-e).toNat then e else e - 1

/-- The double nearest to `a / b`, two positive numbers; of two, the one whose last digit is even. -/
def ofQuotient (negative : Bool) (a b : Nat) : Double :=
  if b * limit ≤ a then .infinite negative
  else
    let e := max leastExponent (binaryOrder a b - 52)
    let m := nearestQuotient (a * Nat.pow 2 (-e).toNat) (b * Nat.pow 2 e.toNat)
    if m = Nat.pow 2 53 then .finite negative (Nat.pow 2 52) (e + 1) else .finite negative m e

/-- The double nearest to a decimal number. Numbers far outside the range are not worked out. -/
def ofDecimal (d : Decimal) : Double :=
  if d.digits = 0 ∨ d.magnitude < -400 then .finite d.negative 0 0
  else if 400 < d.magnitude then .infinite d.negative
  else ofQuotient d.negative (d.digits * Nat.pow 10 d.power.toNat) (Nat.pow 10 (-d.power).toNat)

/-! ## Shortest digits -/

/-- The numbers that round to one double, as multiples of one unit: the double itself, the ends of
the interval, and whether the ends belong to it. -/
structure Neighbourhood where
  value : Nat
  low : Nat
  high : Nat
  closed : Bool
deriving DecidableEq, Repr

/-- The numbers around `m * 2 ^ e` in units of `2 ^ (e - 2)`. Below a power of two the doubles lie
twice as close. -/
def neighbourhood (m : Nat) (e : Int) : Neighbourhood :=
  let below := if m = Nat.pow 2 52 ∧ leastExponent < e then 1 else 2
  ⟨4 * m, 4 * m - below, 4 * m + 2, m % 2 = 0⟩

/-- Whether a number lies in a neighbourhood. -/
def Neighbourhood.contains (n : Neighbourhood) (x : Nat) : Bool :=
  if n.closed then n.low ≤ x && x ≤ n.high else n.low < x && x < n.high

/-- The same numbers in units that are `k` times as small. -/
def Neighbourhood.scale (n : Neighbourhood) (k : Nat) : Neighbourhood :=
  ⟨n.value * k, n.low * k, n.high * k, n.closed⟩

/-- How often `step` has to be taken to come to a number of the neighbourhood: of the two multiples
around the double the nearer one that lies in it, the upper one if both are as near. -/
def Neighbourhood.multiple? (n : Neighbourhood) (step : Nat) : Option Nat :=
  let q := n.value / step
  match n.contains (q * step), n.contains ((q + 1) * step) with
  | true, true => some (if 2 * (n.value % step) < step then q else q + 1)
  | true, false => some q
  | false, true => some (q + 1)
  | false, false => none

/-- The multiple of the greatest power of ten that stands for a double, among `10 ^ power` and the
powers below it, of which `count` are tried. The unit of the neighbourhood is `2 ^ unit`. -/
def shortestFrom (n : Neighbourhood) (unit : Int) : (count : Nat) → (power : Int) → Option (Nat × Int)
  | 0, _ => none
  | count + 1, power =>
    let fine := n.scale (Nat.pow 2 unit.toNat * Nat.pow 10 (-power).toNat)
    match fine.multiple? (Nat.pow 2 (-unit).toNat * Nat.pow 10 power.toNat) with
    | some k => some (k, power)
    | none => shortestFrom n unit count (power - 1)

/-- The decimal number of the fewest digits that rounds to `m * 2 ^ e`, the nearest one of them: its
digits and its power of ten. The powers are tried from one that is above the double. -/
def shortest (m : Nat) (e : Int) : Nat × Int :=
  let bits : Int := m.log2 + e
  (shortestFrom (neighbourhood m e) (e - 2) 400 (max (bits / 3) (bits / 4) + 1)).getD (0, 0)

/-- The text of a double: the fewest digits, in positional notation. -/
def text : Double → String
  | .finite negative 0 _ => Decimal.text ⟨negative, 0, 0⟩
  | .finite negative m e =>
    let (digits, power) := shortest m e
    Decimal.text ⟨negative, digits, power⟩
  | .infinite negative => if negative then "-inf" else "inf"
  | .nan => "NaN"

/-- The whole number of a word that is nearest to a double, a half going up; what lies outside of the
words is taken for the word at that end, and what is no number for zero. -/
def toWord : Double → Nat
  | .finite false m e =>
    let unit := Nat.pow 2 (-e).toNat
    min ((2 * m * Nat.pow 2 e.toNat + unit) / (2 * unit)) (Text.wordLimit - 1)
  | .infinite false => Text.wordLimit - 1
  | _ => 0

end Double

end AssetGroups
