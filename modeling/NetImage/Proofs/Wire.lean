import Mathlib.Tactic
import NetImage.Wire

/-!
# NetImage.Proofs.Wire

Fields read back. A field of `width` bytes holds an integer modulo `256 ^ width`, so reading it gives
back exactly the integers that fit. A string made of parts is read part by part: a position behind
the first part is a position of the rest.

* `toNat_field`: what a field holds.
* `slice_append_middle`: a slice inside one part of a string.
* `numberAt_append_left`, `numberAt_append_right`: a field inside the first part, or behind it.
* `words_eq`: the words of a string, place by place.
* `map_wordsOf_flatMap`: the words of a string of fields.
* `ofNat_toNat_u32`, `ofNat_toNat_i64`, `bmod_toNat_i16`: a field as the number that was written.
-/

namespace NetImage
namespace Bytes

theorem slice_append_right {a s : Bytes} {start stop : Nat} (h : a.length ≤ start) :
    Bytes.slice start stop (a ++ s) = s.slice (start - a.length) (stop - a.length) := by
  simp only [slice, List.drop_append, List.drop_eq_nil_of_le h, List.nil_append]
  congr 1
  omega

theorem slice_append_left {a s : Bytes} {start stop : Nat} (h : stop ≤ a.length) :
    Bytes.slice start stop (a ++ s) = a.slice start stop := by
  rcases Nat.le_total start stop with hs | hs
  · rw [slice, slice, List.drop_append_of_le_length (by omega), List.take_append_of_le_length]
    simp only [List.length_drop]
    omega
  · simp [slice, Nat.sub_eq_zero_of_le hs]

/-- A slice inside the middle part. -/
theorem slice_append_middle {a b c : Bytes} {start stop : Nat} (h : stop ≤ b.length) :
    Bytes.slice (a.length + start) (a.length + stop) (a ++ b ++ c) = b.slice start stop := by
  rw [slice_append_left (by simp only [List.length_append]; omega),
    slice_append_right (by omega), Nat.add_sub_cancel_left, Nat.add_sub_cancel_left]

@[simp] theorem slice_self (s : Bytes) : s.slice 0 s.length = s := by simp [slice]

end Bytes

namespace Wire

theorem toNat_ofNat (width n : Nat) : toNat (ofNat width n) = n % 256 ^ width := by
  induction width generalizing n with
  | zero => simp [ofNat, toNat, Nat.mod_one]
  | succ width ih =>
    rw [ofNat, toNat, ih, pow_succ', Nat.mod_mul]
    simp [UInt8.toNat_ofNat']

theorem toNat_field (width : Nat) (v : Int) : (toNat (field width v) : Int) = v % 256 ^ width := by
  have hpos : (0 : Int) < 256 ^ width := by positivity
  have hcast : ((Nat.pow 256 width : Nat) : Int) = 256 ^ width := by
    rw [Nat.pow_eq]
    norm_cast
  have hnonneg : 0 ≤ v % 256 ^ width := Int.emod_nonneg v hpos.ne'
  rw [field, toNat_ofNat, hcast, Int.natCast_emod, Int.toNat_of_nonneg hnonneg]
  push_cast
  exact Int.emod_emod_of_dvd v (dvd_refl _)

@[simp] theorem length_u8 (v : Int) : (u8 v).length = 1 := length_field 1 v
@[simp] theorem length_u16 (v : Int) : (u16 v).length = 2 := length_field 2 v
@[simp] theorem length_i16 (v : Int) : (i16 v).length = 2 := length_field 2 v
@[simp] theorem length_u32 (v : Int) : (u32 v).length = 4 := length_field 4 v
@[simp] theorem length_i64 (v : Int) : (i64 v).length = 8 := length_field 8 v

@[simp] theorem length_zeros (n : Int) : (zeros n).length = n.toNat := by simp [zeros]

theorem toNat_replicate_zero (n : Nat) : toNat (List.replicate n 0) = 0 := by
  induction n with
  | zero => rfl
  | succ n ih => simp [List.replicate_succ, toNat, ih]

theorem length_padded {s : Bytes} {width : Nat} (h : s.length ≤ width) :
    (padded s width).length = width := by
  simp only [padded, zeros, List.length_append, List.length_replicate]
  omega

/-- The number in the `width` bytes from position `pos` on. -/
def numberAt (s : Bytes) (pos width : Nat) : Nat := toNat (s.slice pos (pos + width))

theorem numberAt_append_left {a s : Bytes} {pos width : Nat} (h : pos + width ≤ a.length) :
    numberAt (a ++ s) pos width = numberAt a pos width := by
  rw [numberAt, numberAt, Bytes.slice_append_left h]

theorem numberAt_append_right {a s : Bytes} {pos width : Nat} (h : a.length ≤ pos) :
    numberAt (a ++ s) pos width = numberAt s (pos - a.length) width := by
  rw [numberAt, numberAt, Bytes.slice_append_right h]
  congr 2
  omega

theorem numberAt_slice {s : Bytes} {start stop pos width : Nat} (h : start + pos + width ≤ stop) :
    numberAt (s.slice start stop) pos width = numberAt s (start + pos) width := by
  simp only [numberAt, Bytes.slice, List.drop_take, List.drop_drop, List.take_take]
  congr 2
  omega

theorem numberAt_replicate_zero (n pos width : Nat) :
    numberAt (List.replicate n 0) pos width = 0 := by
  simp only [numberAt, Bytes.slice, List.drop_replicate, List.take_replicate, toNat_replicate_zero]

theorem numberAt_field (width : Nat) (v : Int) :
    (numberAt (field width v) 0 width : Int) = v % 256 ^ width := by
  have hs : (field width v).slice 0 (0 + width) = field width v := by
    rw [Nat.zero_add]
    simpa using Bytes.slice_self (field width v)
  rw [numberAt, hs, toNat_field]

theorem numberAt_u8 (v : Int) : (numberAt (u8 v) 0 1 : Int) = v % 2 ^ 8 := numberAt_field 1 v

theorem numberAt_u16 (v : Int) : (numberAt (u16 v) 0 2 : Int) = v % 2 ^ 16 := by
  rw [u16, numberAt_field]
  norm_num

theorem numberAt_i16 (v : Int) : (numberAt (i16 v) 0 2 : Int) = v % 2 ^ 16 := numberAt_u16 v

theorem numberAt_u32 (v : Int) : (numberAt (u32 v) 0 4 : Int) = v % 2 ^ 32 := by
  rw [u32, numberAt_field]
  norm_num

/-! ## Words -/

/-- The words of `width` bytes that stand in a string, from its start on. -/
def wordsOf (width : Nat) (s : Bytes) : List Nat :=
  (List.range (s.length / width)).map fun i => numberAt s (width * i) width

theorem wordsOf_of_lt {width : Nat} {s : Bytes} (h : s.length < width) : wordsOf width s = [] := by
  rw [wordsOf, Nat.div_eq_of_lt h]
  rfl

theorem wordsOf_append (word s : Bytes) (h : 0 < word.length) :
    wordsOf word.length (word ++ s) = toNat word :: wordsOf word.length s := by
  have hcount : (word ++ s).length / word.length = s.length / word.length + 1 := by
    rw [List.length_append, Nat.add_div_left _ h]
  have hfirst : numberAt (word ++ s) (word.length * 0) word.length = toNat word := by
    rw [Nat.mul_zero, numberAt_append_left (by omega), numberAt, Nat.zero_add, Bytes.slice_self]
  rw [wordsOf, hcount, List.range_succ_eq_map, List.map_cons, hfirst, List.map_map, wordsOf]
  congr 1
  refine List.map_congr_left ?_
  intro i _
  have hplace : word.length * (i + 1) - word.length = word.length * i := by
    rw [Nat.mul_succ, Nat.add_sub_cancel]
  rw [Function.comp_apply, Nat.succ_eq_add_one,
    numberAt_append_right (Nat.le_mul_of_pos_right _ (Nat.succ_pos i)), hplace]

/-- Words written one behind the other are read back one by one. -/
theorem wordsOf_flatMap {α : Type} {width : Nat} (hwidth : 0 < width) {f : α → Bytes}
    (hf : ∀ x, (f x).length = width) (xs : List α) :
    wordsOf width (xs.flatMap f) = xs.map fun x => toNat (f x) := by
  induction xs with
  | nil => exact wordsOf_of_lt hwidth
  | cons x xs ih =>
    have hword := wordsOf_append (f x) (xs.flatMap f) (by rw [hf]; exact hwidth)
    rw [hf] at hword
    rw [List.flatMap_cons, hword, ih, List.map_cons]

theorem wordsFrom_eq (width count : Nat) (done : List Nat) (s : Bytes) :
    wordsFrom width count done s =
      done.reverse ++ (List.range count).map fun i => numberAt s (width * i) width := by
  induction count generalizing done s with
  | zero => simp [wordsFrom]
  | succ count ih =>
    have hfirst : toNat (s.take width) = numberAt s (width * 0) width := by
      simp [numberAt, Bytes.slice]
    have hrest : ∀ i, numberAt (s.drop width) (width * i) width =
        numberAt s (width * (i + 1)) width := by
      intro i
      simp only [numberAt, Bytes.slice, List.drop_drop, Nat.mul_succ, Nat.add_comm width,
        Nat.add_sub_cancel_left]
    rw [wordsFrom, ih, List.reverse_cons, List.append_assoc, List.range_succ_eq_map, List.map_cons,
      List.map_map, hfirst]
    simp only [hrest, List.singleton_append, Function.comp_def, Nat.succ_eq_add_one]

theorem words_eq (width : Nat) (s : Bytes) : words width s = wordsOf width s :=
  wordsFrom_eq width (s.length / width) [] s

/-! ## Fields as words -/

/-- Fields written one behind the other hold what each of them is read back as. -/
theorem map_wordsOf_flatMap {α β : Type} {width : Nat} (hwidth : 0 < width) {f : α → Bytes}
    (hf : ∀ x, (f x).length = width) {g : Nat → β} {v : α → β} (hg : ∀ x, g (toNat (f x)) = v x)
    (xs : List α) : (wordsOf width (xs.flatMap f)).map g = xs.map v := by
  rw [wordsOf_flatMap hwidth hf, List.map_map]
  exact List.map_congr_left fun x _ => hg x

theorem ofNat_toNat_u32 (w : UInt32) : UInt32.ofNat (toNat (u32 w.toNat)) = w := by
  have hfield : (toNat (u32 w.toNat) : Int) = w.toNat := by
    rw [u32, toNat_field]
    exact Int.emod_eq_of_lt (Int.natCast_nonneg _) (by exact_mod_cast w.toNat_lt)
  rw [Int.ofNat_inj.mp hfield, UInt32.ofNat_toNat]

theorem ofNat_toNat_i64 (n : Int64) : Int64.ofNat (toNat (i64 n.toInt)) = n := by
  have hfield : (toNat (i64 n.toInt) : Int) = n.toInt % Int64.size := by
    rw [i64, toNat_field]
    rfl
  rw [← Int64.toInt_inj, Int64.toInt_ofNat', hfield, Int.emod_bmod, Int64.toInt_bmod_size]

theorem bmod_toNat_i16 (v : Int) : (toNat (i16 v) : Int).bmod (2 ^ 16) = v.bmod (2 ^ 16) := by
  rw [i16, toNat_field, show (256 : Int) ^ 2 = (2 ^ 16 : Nat) by norm_num, Int.emod_bmod]

end Wire
end NetImage
