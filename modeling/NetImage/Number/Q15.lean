import NetImage.Number.Binary

/-!
# NetImage.Number.Q15

The 16-bit fixed-point format with 15 fractional bits. A number is clamped to the closed range from -1
to 32767/32768 and rounded to the nearest step of 1/32768, a half going away from zero; what is not a
number becomes zero.

A value is *beyond range* if clamping changes it or puts it on the upper end, except for exactly one,
which is the usual result of normalizing by a maximum.
-/

namespace NetImage
namespace Q15

/-- How many steps make one. -/
def one : Nat := 32768

/-- The lower end of the range, for diagnostics. -/
def lower : Float := -1.0

/-- The upper end of the range, for diagnostics. -/
def upper : Float := 32767.0 / 32768.0

/-- A magnitude in steps, rounded, a half going up. -/
def steps (significand : Nat) (exponent : Int) : Nat :=
  let scale := exponent + 15
  let den := 1 <<< (-scale).toNat
  (2 * (significand <<< scale.toNat) + den) / (2 * den)

/-- How a magnitude compares with `n` steps. -/
def compareSteps (significand : Nat) (exponent : Int) (n : Nat) : Ordering :=
  let scale := exponent + 15
  compare (significand <<< scale.toNat) (n <<< (-scale).toNat)

/-- The fixed-point word of a value, between -32768 and 32767. -/
def ofValue : RealValue → Int
  | .nan => 0
  | .infinite true => -32768
  | .infinite false => 32767
  | .finite true significand exponent => -(min (steps significand exponent) 32768 : Nat)
  | .finite false significand exponent => (min (steps significand exponent) 32767 : Nat)

/-- Is this value beyond range? -/
def isBeyond : RealValue → Bool
  | .nan => true
  | .infinite _ => true
  | .finite true significand exponent => compareSteps significand exponent 32768 == .gt
  | .finite false significand exponent =>
    compareSteps significand exponent 32767 != .lt && compareSteps significand exponent one != .eq

end Q15

/-- The fixed-point word of a number. -/
def quantize (x : Float) : Int := Q15.ofValue (valueOf64 x)

/-- Does quantizing this number call for a diagnostic? -/
def isBeyondQ15 (x : Float) : Bool := Q15.isBeyond (valueOf64 x)

/-- How many of some numbers call for a diagnostic. -/
def countBeyondQ15 (xs : List Float) : Nat := xs.countP isBeyondQ15

/-- The number that a fixed-point word stands for. -/
def dequantize (q : Int16) : Float :=
  let magnitude := (UInt64.ofNat q.toInt.natAbs).toFloat / 32768.0
  if q < 0 then -magnitude else magnitude

/-- The number to quantize for `x` in a model of the given scale. -/
def descale (x : Float) (scale : Int64) : Float := x / floatOfInt64 scale

end NetImage
