/-!
Numbers in decimal notation, exact.
-/

namespace AssetGroups

/-- A number in decimal notation: its digits as one number, times a power of ten. -/
structure Decimal where
  negative : Bool := false
  digits : Nat
  power : Int := 0
deriving DecidableEq, Repr

namespace Decimal

/-- The number in positional notation, without needless zeros after the point. -/
def text (d : Decimal) : String :=
  let shown :=
    if 0 ≤ d.power then Nat.toDigits 10 (d.digits * Nat.pow 10 d.power.toNat)
    else
      let unit := Nat.pow 10 (-d.power).toNat
      let whole := Nat.toDigits 10 (d.digits / unit)
      let rest := Nat.toDigits 10 (unit + d.digits % unit)
      let fraction := ((rest.drop 1).reverse.dropWhile (· == '0')).reverse
      if fraction.isEmpty then whole else whole ++ '.' :: fraction
  String.ofList (if d.negative then '-' :: shown else shown)

/-- The power of ten that the number lies below, and not far below. -/
def magnitude (d : Decimal) : Int := d.power + (Nat.toDigits 10 d.digits).length

end Decimal

end AssetGroups
