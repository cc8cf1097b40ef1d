/-!
# NetImage.Bytes

Byte strings. Graph text, names and messages are lists of bytes, because a name may hold any byte and
need not be valid UTF-8. Finished sections and files are `ByteArray`s, read as their list of bytes.

* `ascii`, `decimal`, `hexDigits` — what messages are put together from.
* `split` — the pieces between separators; there is always one more piece than separators.
* `extend` — a buffer with some bytes after it.
-/

namespace NetImage

/-- A byte string. -/
abbrev Bytes := List UInt8

/-- The bytes of a text literal. -/
def ascii (s : String) : Bytes := s.toUTF8.data.toList

/-- The decimal digits of a natural number, without leading zeros. -/
def decimalNat (n : Nat) : Bytes :=
  (Nat.toDigits 10 n).map fun c => UInt8.ofNat c.toNat

/-- An integer in decimal, with a minus sign if it is negative. -/
def decimal : Int → Bytes
  | .ofNat n => decimalNat n
  | .negSucc n => 0x2d :: decimalNat (n + 1)

/-- The lower-case digit of a number below sixteen. -/
def hexDigit (n : Nat) : UInt8 := UInt8.ofNat (if n < 10 then 0x30 + n else 0x57 + n)

/-- The low `width` hexadecimal digits of `n`, most significant first. -/
def hexDigits : Nat → Nat → Bytes
  | 0, _ => []
  | width + 1, n => hexDigits width (n / 16) ++ [hexDigit (n % 16)]

namespace Bytes

/-- The pieces of `s` between the separators. -/
def split (sep : UInt8) (s : Bytes) : List Bytes :=
  s.foldr
    (fun b pieces =>
      if b = sep then [] :: pieces
      else match pieces with
        | piece :: rest => (b :: piece) :: rest
        | [] => [[b]])
    [[]]

/-- The pieces in order with `sep` between neighbours. -/
def join (sep : Bytes) (pieces : List Bytes) : Bytes := sep.intercalate pieces

/-- Everything before the first `sep` and everything after it, if there is one. -/
def cut (sep : UInt8) (s : Bytes) : Option (Bytes × Bytes) :=
  match s.dropWhile (· != sep) with
  | [] => none
  | _ :: rest => some (s.takeWhile (· != sep), rest)

/-- Search for `pattern` in a string whose first byte has position `start`. -/
def findFrom (pattern : Bytes) : Nat → Bytes → Option Nat
  | start, [] => if pattern.isEmpty then some start else none
  | start, b :: s =>
    if pattern.isPrefixOf (b :: s) then some start else findFrom pattern (start + 1) s

/-- The position of the first occurrence of `pattern`. -/
def find (s pattern : Bytes) : Option Nat := findFrom pattern 0 s

/-- The bytes from position `start` up to but not including `stop`. -/
def slice (start stop : Nat) (s : Bytes) : Bytes := (s.drop start).take (stop - start)

/-- ASCII letters in lower case, everything else unchanged. -/
def toLower (s : Bytes) : Bytes :=
  s.map fun b => if 0x41 ≤ b ∧ b ≤ 0x5a then b + 0x20 else b

end Bytes

/-- A buffer followed by some more bytes. -/
def extend (buffer : ByteArray) (bytes : Bytes) : ByteArray := bytes.foldl ByteArray.push buffer

/-- A buffer followed by `n` zero bytes. -/
def extendZeros : Nat → ByteArray → ByteArray
  | 0, buffer => buffer
  | n + 1, buffer => extendZeros n (buffer.push 0)

@[simp] theorem extend_nil (buffer : ByteArray) : extend buffer [] = buffer := rfl

@[simp] theorem extend_cons (buffer : ByteArray) (b : UInt8) (bytes : Bytes) :
    extend buffer (b :: bytes) = extend (buffer.push b) bytes := rfl

@[simp] theorem toList_extend (buffer : ByteArray) (bytes : Bytes) :
    (extend buffer bytes).data.toList = buffer.data.toList ++ bytes := by
  induction bytes generalizing buffer with
  | nil => simp
  | cons b bytes ih => simp [ih, ByteArray.data_push]

@[simp] theorem toList_extendZeros (n : Nat) (buffer : ByteArray) :
    (extendZeros n buffer).data.toList = buffer.data.toList ++ List.replicate n 0 := by
  induction n generalizing buffer with
  | zero => simp [extendZeros]
  | succ n ih => simp [extendZeros, ih, ByteArray.data_push, List.replicate_succ]

end NetImage
