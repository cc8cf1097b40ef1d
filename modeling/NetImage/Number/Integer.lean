import NetImage.Text.Quoted

/-!
# NetImage.Number.Integer

Reading decimal integers of 64 bits, and what is said about a text that is not one.

A sign of either kind may stand in front. Digits are read from the left: a byte that is no digit makes
the text malformed, unless the digits before it already exceed every 64-bit word.
-/

namespace NetImage

/-- Why a text was refused as a number. -/
inductive NumberFault where
  | malformed
  | outOfRange
  deriving DecidableEq, Repr

/-- What a text was to be read as. -/
inductive NumberKind where
  /-- An attribute of a declaration. -/
  | attribute
  /-- An element of an integer constant. -/
  | element
  /-- A real number of 32 bits. -/
  | real
  deriving DecidableEq, Repr

/-- A refused number. -/
structure NumberError where
  kind : NumberKind
  text : Bytes
  fault : NumberFault
  deriving DecidableEq, Repr

/-- The wording of a refusal. -/
def NumberError.message (e : NumberError) : Bytes :=
  let reader := match e.kind with
    | .attribute => "strconv.Atoi"
    | .element => "strconv.ParseInt"
    | .real => "strconv.ParseFloat"
  let reason := match e.fault with
    | .malformed => "invalid syntax"
    | .outOfRange => "value out of range"
  ascii reader ++ ascii ": parsing " ++ quote e.text ++ ascii ": " ++ ascii reason

/-- Is this byte a decimal digit? -/
def isDigit (b : UInt8) : Bool := 0x30 ≤ b && b ≤ 0x39

/-- The value of a decimal digit. -/
def digitValue (b : UInt8) : Nat := b.toNat - 0x30

/-- Reads digits behind those that make up `n`. -/
def readDigits : Nat → Bytes → Except NumberFault Nat
  | n, [] => .ok n
  | n, b :: s =>
    if isDigit b then
      let n := n * 10 + digitValue b
      if n < UInt64.size then readDigits n s else .error .outOfRange
    else .error .malformed

/-- Reads digits, of which there must be one. -/
def readNat : Bytes → Except NumberFault Nat
  | [] => .error .malformed
  | s => readDigits 0 s

/-- The least positive number that is no signed word of 64 bits. -/
def signedBound : Nat := 9223372036854775808

/-- Reads an integer of 64 bits. -/
def readInt64 (s : Bytes) : Except NumberFault Int64 :=
  let (negative, digits) := match s with
    | 0x2d :: rest => (true, rest)
    | 0x2b :: rest => (false, rest)
    | _ => (false, s)
  match readNat digits with
  | .error fault => .error fault
  | .ok n =>
    if negative then
      if n ≤ signedBound then .ok (Int64.ofInt (-n)) else .error .outOfRange
    else
      if n < signedBound then .ok (Int64.ofInt n) else .error .outOfRange

end NetImage
