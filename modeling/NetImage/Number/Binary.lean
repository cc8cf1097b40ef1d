/-!
# NetImage.Number.Binary

Binary floating point through the exact numbers that its words denote.

* `Format.unpack` — what a word denotes.
* `Format.nearest` — the word whose value is nearest to a quotient, ties to an even word.
* `Format.round` — the same for a significand and an exponent.
* `widen`, `narrow` — between 32 and 64 bits.
-/

namespace NetImage

/-- The integer nearest to `num / den`, a tie going to the even one. -/
def roundHalfEven (num den : Nat) : Nat :=
  let q := num / den
  let r := num % den
  if 2 * r < den then q else if den < 2 * r then q + 1 else q + q % 2

/-- The largest `k` with `2 ^ k ≤ num / den`, for positive `num` and `den`. -/
def floorLog2 (num den : Nat) : Int :=
  let k : Int := num.log2 - den.log2
  if num <<< (-k).toNat < den <<< k.toNat then k - 1 else k

/-- A binary floating-point format: the width of a word, the number of digits of a significand, the
exponent of the least positive value, and the word of infinity. -/
structure Format where
  width : Nat
  digits : Nat
  least : Int
  infinity : Nat

namespace Format

/-- The format of 32 bits. -/
def binary32 : Format := ⟨32, 24, -149, 0x7f800000⟩

/-- The format of 64 bits. -/
def binary64 : Format := ⟨64, 53, -1074, 0x7ff0000000000000⟩

end Format

/-- What a word denotes. A finite value is the significand times two to the exponent. -/
inductive RealValue where
  | nan
  | infinite (negative : Bool)
  | finite (negative : Bool) (significand : Nat) (exponent : Int)
  deriving DecidableEq, Repr

namespace Format

/-- The number whose word is the sign bit alone. -/
def signBit (f : Format) : Nat := 1 <<< (f.width - 1)

/-- The least significand with all its digits, which is also how many words share an exponent. -/
def hidden (f : Format) : Nat := 1 <<< (f.digits - 1)

/-- What a word denotes. -/
def unpack (f : Format) (word : Nat) : RealValue :=
  let negative := f.signBit ≤ word
  let magnitude := word % f.signBit
  if f.infinity < magnitude then .nan
  else if magnitude = f.infinity then .infinite negative
  else
    let place := magnitude / f.hidden
    let fraction := magnitude % f.hidden
    if place = 0 then .finite negative fraction f.least
    else .finite negative (fraction + f.hidden) (f.least + place - 1)

/-- The word of the value nearest to `num / den`, ties to an even word. Values that round beyond the
largest finite one have the word of infinity. -/
def nearest (f : Format) (num den : Nat) : Nat :=
  if num = 0 then 0
  else
    let exponent := max f.least (floorLog2 num den - (f.digits - 1))
    let significand :=
      roundHalfEven (num <<< (-exponent).toNat) (den <<< exponent.toNat)
    min f.infinity ((exponent - f.least).toNat * f.hidden + significand)

/-- The word of the value nearest to `significand` times two to the `exponent`, ties to an even word.
Values that round beyond the largest finite one have the word of infinity. -/
def round (f : Format) (significand : Nat) (exponent : Int) : Nat :=
  if significand = 0 then 0
  else
    let place := max f.least (significand.log2 + exponent - (f.digits - 1))
    let kept :=
      roundHalfEven (significand <<< (exponent - place).toNat) (1 <<< (place - exponent).toNat)
    min f.infinity ((place - f.least).toNat * f.hidden + kept)

/-- A word with the given sign. -/
def signed (f : Format) (negative : Bool) (magnitude : Nat) : Nat :=
  if negative then f.signBit + magnitude else magnitude

/-- The word nearest to a value. -/
def pack (f : Format) : RealValue → Nat
  | .nan => f.infinity + 1
  | .infinite negative => f.signed negative f.infinity
  | .finite negative significand exponent =>
    f.signed negative (f.round significand exponent)

end Format

/-- The value of a number of 32 bits. -/
def valueOf32 (x : Float32) : RealValue := Format.binary32.unpack x.toBits.toNat

/-- The value of a number of 64 bits. -/
def valueOf64 (x : Float) : RealValue := Format.binary64.unpack x.toBits.toNat

/-- The same number with 64 bits. -/
def widen (x : Float32) : Float :=
  Float.ofBits (UInt64.ofNat (Format.binary64.pack (valueOf32 x)))

/-- The nearest number of 32 bits, ties to an even word. -/
def narrow (x : Float) : Float32 :=
  Float32.ofBits (UInt32.ofNat (Format.binary32.pack (valueOf64 x)))

/-- The number of 64 bits nearest to an integer. -/
def floatOfInt64 (n : Int64) : Float :=
  let magnitude := (UInt64.ofNat n.toInt.natAbs).toFloat
  if n < 0 then -magnitude else magnitude

end NetImage
