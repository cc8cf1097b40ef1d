import NetImage.Bytes
import NetImage.Number.Binary

/-!
# NetImage.Number.Fixed

Real numbers in decimal with four places, the form in which generated weights are written. The number
is first rounded to 32 bits; its exact value is then rounded to four places, ties to an even last
digit. The sign of a negative number is kept even if all its digits are zero.
-/

namespace NetImage
namespace Fixed

/-- How many places are written. -/
def places : Nat := 4

/-- How many units of the last place make one. -/
def unit : Nat := Nat.pow 10 places

/-- The last `width` digits of `n`, with leading zeros. -/
def padded : Nat → Nat → Bytes
  | 0, _ => []
  | width + 1, n => padded width (n / 10) ++ [UInt8.ofNat (0x30 + n % 10)]

/-- A magnitude counted in units of the last place. -/
def magnitude (units : Nat) : Bytes :=
  decimalNat (units / unit) ++ 0x2e :: padded places units

end Fixed

/-- A real number with four places. -/
def fixedPoint (x : Float) : Bytes :=
  match valueOf32 (narrow x) with
  | .nan => ascii "NaN"
  | .infinite negative => ascii (if negative then "-Inf" else "+Inf")
  | .finite negative significand exponent =>
    let units := roundHalfEven ((significand * Fixed.unit) <<< exponent.toNat)
      (1 <<< (-exponent).toNat)
    if negative then 0x2d :: Fixed.magnitude units else Fixed.magnitude units

end NetImage
