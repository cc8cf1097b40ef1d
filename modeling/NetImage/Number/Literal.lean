import NetImage.Number.Binary
import NetImage.Number.Integer

/-!
# NetImage.Number.Literal

Reading a real number of 32 bits. A text is an optional sign before one of

* `inf` or `infinity`, and without a sign `nan`, in any case;
* decimal digits with at most one point among them and an optional exponent behind `e`;
* `0x`, hexadecimal digits with at most one point among them, and a binary exponent behind `p`.

Underscores may stand between digits and behind `0x`. The value is rounded once, ties to an even
word. One case is apart: of a decimal number with more than eight hundred digits in front of its point,
so near to the middle between two words that its first nineteen leave both open, only the first eight
hundred count, also for the place of the point.
-/

namespace NetImage
namespace Literal

/-- The byte in lower case. -/
def lower (b : UInt8) : UInt8 := if 0x41 ≤ b && b ≤ 0x5a then b + 0x20 else b

/-- The way a number is written. -/
inductive Radix where
  | decimal
  | hexadecimal
  deriving DecidableEq, Repr

/-- Is this byte a digit in this radix? -/
def Radix.isDigit : Radix → UInt8 → Bool
  | .decimal, b => NetImage.isDigit b
  | .hexadecimal, b => NetImage.isDigit b || (0x61 ≤ lower b && lower b ≤ 0x66)

/-- The value of a digit. -/
def Radix.digitValue (b : UInt8) : Nat :=
  if NetImage.isDigit b then NetImage.digitValue b else (lower b).toNat - 0x57

/-- The letter in front of the exponent, in lower case. -/
def Radix.exponentMark : Radix → UInt8
  | .decimal => 0x65
  | .hexadecimal => 0x70

/-- What stood in front of the next byte: nothing that counts, a digit, an underscore, or some other
byte. -/
inductive Seen where
  | start
  | digit
  | underscore
  | other
  deriving DecidableEq

/-- Is every underscore between digits? -/
def underscoresOk (hex : Bool) : Seen → Bytes → Bool
  | seen, [] => seen != .underscore
  | seen, b :: s =>
    if NetImage.isDigit b || (hex && 0x61 ≤ lower b && lower b ≤ 0x66) then
      underscoresOk hex .digit s
    else if b = 0x5f then seen == .digit && underscoresOk hex .underscore s
    else seen != .underscore && underscoresOk hex .other s

/-- Reads the digits of an exponent. From ten thousand on, further digits change nothing. -/
def exponentDigits : Nat → Bytes → Option Nat
  | e, [] => some e
  | e, b :: s =>
    if NetImage.isDigit b then
      exponentDigits (if e < 10000 then e * 10 + NetImage.digitValue b else e) s
    else if b = 0x5f then exponentDigits e s
    else none

/-- Reads an exponent behind its mark. -/
def exponent (s : Bytes) : Option Int :=
  let (negative, digits) := match s with
    | 0x2d :: rest => (true, rest)
    | 0x2b :: rest => (false, rest)
    | _ => (false, s)
  match digits with
  | b :: _ =>
    if NetImage.isDigit b then
      (exponentDigits 0 digits).map fun e => if negative then -(e : Int) else e
    else none
  | [] => none

/-- How many leading digits of a decimal number are tried first. -/
def leadLimit : Nat := 19

/-- How many digits are looked at when the leading ones leave the word open. -/
def digitLimit : Nat := 800

/-- The number that digits write in a base. -/
def ofDigits (base : Nat) (digits : List Nat) : Nat := digits.foldl (fun n d => n * base + d) 0

/-- The digits up to the limit and one more, which is zero if all behind them are. -/
def keptDigits (digits : List Nat) : List Nat :=
  digits.take digitLimit ++ [if (digits.drop digitLimit).all (· == 0) then 0 else 1]

/-- The word nearest to `n * base ^ e`. The number has about `order` digits of the base in front of
its point, so that one far too large or far too small is known without the power. -/
def nearestWord (base n : Nat) (e order : Int) : Nat :=
  if n = 0 ∨ order < -500 then 0
  else if 500 < order then Format.binary32.infinity
  else Format.binary32.nearest (n * Nat.pow base e.toNat) (Nat.pow base (-e).toNat)

/-- The word for decimal digits, the first of them not zero and `whole` of them in front of the
point, times ten to the exponent. The leading digits decide if one more in their last place leads to
the same word. Otherwise the digits up to the limit decide, and the point stands at the latest behind
the last of these. -/
def roundDecimal (digits : List Nat) (whole exponent : Int) : Nat :=
  let lead := digits.take leadLimit
  let n := ofDigits 10 lead
  let order := whole + exponent
  let place := order - lead.length
  let low := nearestWord 10 n place order
  if (digits.drop leadLimit).all (· == 0) || nearestWord 10 (n + 1) place order == low then low
  else
    let kept := keptDigits digits
    let order := min whole digitLimit + exponent
    nearestWord 10 (ofDigits 10 kept) (order - kept.length) order

/-- The word for hexadecimal digits, the first of them not zero and `whole` of them in front of the
point, times two to the exponent. -/
def roundHexadecimal (digits : List Nat) (whole exponent : Int) : Nat :=
  let kept := keptDigits digits
  let order := 4 * whole + exponent
  nearestWord 2 (ofDigits 16 kept) (order - 4 * kept.length) order

/-- Reads a number without its sign. -/
def unsigned (s : Bytes) : Except NumberFault Nat :=
  let (radix, body) := match s with
    | 0x30 :: x :: b :: rest =>
      if lower x = 0x78 then (Radix.hexadecimal, b :: rest) else (.decimal, s)
    | _ => (.decimal, s)
  let inMantissa := fun b => radix.isDigit b || b == 0x5f || b == 0x2e
  let mantissa := body.takeWhile inMantissa
  let rest := body.dropWhile inMantissa
  let exponent? : Option Int := match rest with
    | [] => if radix = .hexadecimal then none else some 0
    | mark :: e => if lower mark = radix.exponentMark then exponent e else none
  let digits := (mantissa.filter radix.isDigit).map Radix.digitValue
  let fraction := ((mantissa.dropWhile (· != 0x2e)).filter radix.isDigit).length
  let hex := radix == .hexadecimal
  let before := if hex then Seen.digit else Seen.start
  if digits.isEmpty || 1 < mantissa.count 0x2e then .error .malformed
  else match exponent? with
    | none => .error .malformed
    | some e =>
      if s.contains 0x5f && !underscoresOk hex before body then .error .malformed
      else
        let significant := digits.dropWhile (· == 0)
        let whole : Int := significant.length - fraction
        let word := match radix with
          | .decimal => roundDecimal significant whole e
          | .hexadecimal => roundHexadecimal significant whole e
        if word < Format.binary32.infinity then .ok word else .error .outOfRange

/-- Infinity by name. -/
def isInfinity (s : Bytes) : Bool :=
  let s := s.map lower
  s == ascii "inf" || s == ascii "infinity"

end Literal

/-- Reads a real number of 32 bits. -/
def readFloat32 (s : Bytes) : Except NumberFault Float32 :=
  let (negative, body) := match s with
    | 0x2d :: rest => (true, rest)
    | 0x2b :: rest => (false, rest)
    | _ => (false, s)
  let word : Except NumberFault Nat :=
    if Literal.isInfinity body then .ok Format.binary32.infinity
    else if s.map Literal.lower == ascii "nan" then .ok (Format.binary32.infinity + 1)
    else Literal.unsigned body
  word.map fun w => Float32.ofBits (UInt32.ofNat (Format.binary32.signed negative w))

end NetImage
