import NetImage.Bytes

/-!
# NetImage.Wire

Integers in fields of fixed width, least significant byte first. A field keeps the low bits of an
integer in two's complement, so the width of every field is visible where it is written.
-/

namespace NetImage
namespace Wire

/-- The low `width` bytes of a natural number. -/
def ofNat : Nat → Nat → Bytes
  | 0, _ => []
  | width + 1, n => UInt8.ofNat n :: ofNat width (n / 256)

/-- The number with the given bytes. -/
def toNat : Bytes → Nat
  | [] => 0
  | b :: s => b.toNat + 256 * toNat s

/-- An integer in a field of `width` bytes. -/
def field (width : Nat) (v : Int) : Bytes := ofNat width (v % Nat.pow 256 width).toNat

def u8 (v : Int) : Bytes := field 1 v
def u16 (v : Int) : Bytes := field 2 v
def i16 (v : Int) : Bytes := field 2 v
def u32 (v : Int) : Bytes := field 4 v
def i64 (v : Int) : Bytes := field 8 v

/-- As many zero bytes as `n` says, none if it is negative. -/
def zeros (n : Int) : Bytes := List.replicate n.toNat 0

/-- A text with zero bytes behind it up to `width` bytes. -/
def padded (s : Bytes) (width : Int) : Bytes := s ++ zeros (width - s.length)

/-- The first `count` words of `width` bytes each; `done` holds those before them, newest first. -/
def wordsFrom (width : Nat) : Nat → List Nat → Bytes → List Nat
  | 0, done, _ => done.reverse
  | count + 1, done, s => wordsFrom width count (toNat (s.take width) :: done) (s.drop width)

/-- The words of `width` bytes that a string consists of. -/
def words (width : Nat) (s : Bytes) : List Nat := wordsFrom width (s.length / width) [] s

@[simp] theorem length_ofNat (width n : Nat) : (ofNat width n).length = width := by
  induction width generalizing n with
  | zero => rfl
  | succ width ih => simp [ofNat, ih]

@[simp] theorem length_field (width : Nat) (v : Int) : (field width v).length = width :=
  length_ofNat width _

end Wire
end NetImage
