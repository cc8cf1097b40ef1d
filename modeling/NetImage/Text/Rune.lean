import NetImage.Bytes

/-!
# NetImage.Text.Rune

Byte strings read as UTF-8. Every byte string has a reading: a byte that starts no well-formed
sequence stands for the replacement character and is one byte wide, and reading goes on behind it.

* `Rune.first` — the rune at the front of a non-empty string.
* `Rune.encode` — the bytes of a code point.
* `runes` — the whole string; the bytes of its runes, in order, are the string.
-/

namespace NetImage

/-- A code point together with the bytes it was read from. -/
structure Rune where
  code : Nat
  bytes : Bytes
  deriving DecidableEq, Repr

namespace Rune

/-- The code point that stands for a byte that cannot be read. -/
def replacement : Nat := 0xfffd

/-- Is `b` a byte of a sequence other than its first? -/
def isContinuation (b : UInt8) : Bool := 0x80 ≤ b && b < 0xc0

/-- The code point `lead` followed by the six payload bits of `b`. -/
def shiftIn (lead : Nat) (b : UInt8) : Nat := lead * 64 + (b.toNat - 0x80)

/-- A byte that starts no well-formed sequence. -/
def malformed (b : UInt8) : Rune := ⟨replacement, [b]⟩

/-- Does this rune stand for a byte that cannot be read? -/
def isMalformed (r : Rune) : Bool := r.code == replacement && r.bytes.length == 1

/-- The rune at the front of `b :: rest`. Overlong forms, surrogates and code points beyond
`0x10ffff` are not well formed. -/
def first (b : UInt8) (rest : Bytes) : Rune :=
  if b < 0x80 then ⟨b.toNat, [b]⟩
  else if b < 0xc2 then malformed b
  else if b < 0xe0 then
    match rest with
    | c :: _ =>
      if isContinuation c then ⟨shiftIn (b.toNat - 0xc0) c, [b, c]⟩ else malformed b
    | [] => malformed b
  else if b < 0xf0 then
    match rest with
    | c :: d :: _ =>
      let code := shiftIn (shiftIn (b.toNat - 0xe0) c) d
      if isContinuation c && isContinuation d && 0x800 ≤ code
          && !(0xd800 ≤ code && code < 0xe000) then
        ⟨code, [b, c, d]⟩
      else malformed b
    | _ => malformed b
  else if b < 0xf5 then
    match rest with
    | c :: d :: e :: _ =>
      let code := shiftIn (shiftIn (shiftIn (b.toNat - 0xf0) c) d) e
      if isContinuation c && isContinuation d && isContinuation e && 0x10000 ≤ code
          && code < 0x110000 then
        ⟨code, [b, c, d, e]⟩
      else malformed b
    | _ => malformed b
  else malformed b

/-- A byte of a sequence other than its first, with the low six bits of `n`. -/
def continuation (n : Nat) : UInt8 := UInt8.ofNat (0x80 + n % 64)

/-- The bytes of a code point. -/
def encode (code : Nat) : Bytes :=
  if code < 0x80 then [UInt8.ofNat code]
  else if code < 0x800 then [UInt8.ofNat (0xc0 + code / 64), continuation code]
  else if code < 0x10000 then
    [UInt8.ofNat (0xe0 + code / 4096), continuation (code / 64), continuation code]
  else
    [UInt8.ofNat (0xf0 + code / 262144), continuation (code / 4096), continuation (code / 64),
     continuation code]

/-- Reads on behind `skip` bytes that belong to the rune read last; `done` is what was read so far,
newest first. -/
def readFrom : Nat → Bytes → List Rune → List Rune
  | _, [], done => done.reverse
  | skip + 1, _ :: s, done => readFrom skip s done
  | 0, b :: s, done =>
    let r := first b s
    readFrom (r.bytes.length - 1) s (r :: done)

end Rune

/-- The runes of a byte string. -/
def runes (s : Bytes) : List Rune := Rune.readFrom 0 s []

end NetImage
