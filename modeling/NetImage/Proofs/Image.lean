import Mathlib.Data.List.GetD
import NetImage.Image
import NetImage.Proofs.Passes
import NetImage.Proofs.Wire

/-!
# NetImage.Proofs.Image

An image holds its sections where its offsets say.

* `Image.getElem?_offsetsFrom`: an offset is the start and the sizes before it.
* `Image.assemble_eq_ok`: the bytes of an image.
* `Image.section_eq`: a part of a section is a part of the image.
* `Image.assemble_eq`: what is assembled, as long as the exact size is a 64-bit integer.
-/

namespace NetImage
namespace Image

/-- The size of some sections. -/
def total (sections : List ByteArray) : Nat := (sections.map ByteArray.size).sum

theorem offsetsFrom_acc (sections : List ByteArray) (done : List Int) (start : Int) :
    (sections.foldl (fun (acc : List Int × Int) s => (acc.2 :: acc.1, acc.2 + s.size))
      (done, start)).1.reverse =
      done.reverse ++ (List.range sections.length).map fun i =>
        start + total (sections.take i) := by
  induction sections generalizing done start with
  | nil => simp
  | cons s sections ih =>
    rw [List.foldl_cons, ih, List.length_cons, List.range_succ_eq_map, List.map_cons, List.map_map,
      List.reverse_cons, List.append_assoc]
    simp [total, Int.add_assoc]

theorem getElem?_offsetsFrom {sections : List ByteArray} {i : Nat} (h : i < sections.length)
    (start : Int) :
    (offsetsFrom start sections)[i]? = some (start + total (sections.take i)) := by
  rw [offsetsFrom, offsetsFrom_acc]
  simp [h]

theorem toList_foldl_append (sections : List ByteArray) (head : ByteArray) :
    (sections.foldl (· ++ ·) head).data.toList =
      head.data.toList ++ (sections.map fun s => s.data.toList).flatten := by
  induction sections generalizing head with
  | nil => simp
  | cons s sections ih => simp [ih, ByteArray.data_append]

theorem foldl_size (sections : List ByteArray) (start : Int) :
    sections.foldl (fun n s => n + (s.size : Int)) start = start + total sections := by
  induction sections generalizing start with
  | nil => simp [total]
  | cons s sections ih =>
    rw [List.foldl_cons, ih]
    simp [total, Int.add_assoc]

theorem assemble_eq_ok {reserved size : Int64} {sections : List ByteArray} {im : Image}
    (hne : sections ≠ []) (h : assemble reserved size sections = .ok im) :
    0 ≤ reserved.toInt ∧ reserved.toInt + total sections ≤ size.toInt ∧
      im.offsets = offsetsFrom reserved.toInt sections ∧
      ∃ rest, im.bytes.data.toList = List.replicate reserved.toInt.toNat 0
        ++ (sections.map fun s => s.data.toList).flatten ++ List.replicate rest 0 := by
  unfold assemble at h
  simp only at h
  split at h
  · cases h
  · split at h
    · cases h
    · split at h
      · rename_i hempty
        exact absurd (List.isEmpty_iff.mp hempty) hne
      · split at h
        · cases h
        · rename_i hstart
          cases h
          refine ⟨by omega, by rw [← foldl_size]; omega, rfl,
            (size.toInt - sections.foldl (fun n s => n + (s.size : Int)) reserved.toInt).toNat, ?_⟩
          rw [toList_extendZeros, toList_foldl_append, toList_extendZeros]
          rfl

/-- The bytes of an image from `start` up to `stop`. -/
def part (im : Image) (start stop : Nat) : Bytes := Bytes.slice start stop im.bytes.data.toList

theorem length_flatten (sections : List ByteArray) :
    (sections.map fun s => s.data.toList).flatten.length = total sections := by
  simp only [List.length_flatten, List.map_map, total]
  rfl

/-- Every section is in the image, and the same part of both is the same. -/
theorem section_eq {reserved size : Int64} {sections : List ByteArray} {im : Image}
    (h : assemble reserved size sections = .ok im) {i : Nat} {s : ByteArray}
    (hs : sections[i]? = some s) :
    ∃ start : Nat, im.offsets[i]? = some (start : Int) ∧ ∀ a b, b ≤ s.size →
      im.part (start + a) (start + b) = Bytes.slice a b s.data.toList := by
  obtain ⟨before, after, rfl, rfl⟩ :
      ∃ before after, sections = before ++ s :: after ∧ before.length = i := by
    obtain ⟨hi, rfl⟩ := List.getElem?_eq_some_iff.mp hs
    exact ⟨sections.take i, sections.drop (i + 1), by simp, by simp [hi.le]⟩
  obtain ⟨hreserved, -, hoffsets, rest, hbytes⟩ := assemble_eq_ok (by simp) h
  refine ⟨reserved.toInt.toNat + total before, ?_, ?_⟩
  · rw [hoffsets, getElem?_offsetsFrom (by simp), List.take_left, Nat.cast_add,
      Int.toNat_of_nonneg hreserved]
  · intro a b hb
    have hlen : (List.replicate reserved.toInt.toNat (0 : UInt8)
        ++ (before.map fun s => s.data.toList).flatten).length =
        reserved.toInt.toNat + total before := by
      rw [List.length_append, List.length_replicate, length_flatten]
    rw [part, hbytes, ← hlen, List.map_append, List.flatten_append, List.map_cons,
      List.flatten_cons, ← List.append_assoc, ← List.append_assoc, List.append_assoc _ _
      (List.replicate rest 0), Bytes.slice_append_middle hb]

/-! ## Exact sizes -/

theorem toInt_need (reserved : Int64) (sections : List ByteArray) :
    (need reserved sections).toInt = (reserved.toInt + total sections).bmod (2 ^ 64) := by
  unfold need
  induction sections generalizing reserved with
  | nil => simp [total]
  | cons s sections ih =>
    rw [List.foldl_cons, ih, Int64.toInt_add, Int64.toInt_ofNat']
    simp [total, Int.add_assoc]

theorem toInt_need_of_lt {reserved : Int64} {sections : List ByteArray}
    (h₀ : 0 ≤ reserved.toInt) (hlt : reserved.toInt + total sections < 2 ^ 63) :
    (need reserved sections).toInt = reserved.toInt + total sections := by
  rw [toInt_need]
  exact Int.bmod_eq_of_le (by omega) (by omega)

/-- The sections behind `start` zero bytes, with zeros behind them up to `size` bytes. -/
def layout (start size : Nat) (sections : List ByteArray) : Image where
  bytes := extendZeros (size - (start + total sections))
    (sections.foldl (· ++ ·) (extendZeros start .empty))
  offsets := offsetsFrom start sections
  used := start + total sections

theorem assemble_eq {reserved : Int64} {sections : List ByteArray} (hne : sections ≠ [])
    (h₀ : 0 ≤ reserved.toInt) (hlt : reserved.toInt + total sections < 2 ^ 63) (size : Int64) :
    assemble reserved size sections =
      if reserved.toInt + total sections ≤ size.toInt then
        .ok (layout reserved.toInt.toNat size.toInt.toNat sections)
      else .error (.capacity (need reserved sections) size) := by
  have hneed := toInt_need_of_lt h₀ hlt
  have hempty : sections.isEmpty = false := by simpa using hne
  unfold assemble
  simp only [Int64.lt_iff_toInt_lt, hneed, foldl_size, hempty, Bool.false_eq_true, if_false]
  by_cases hfits : reserved.toInt + total sections ≤ size.toInt
  · have hzero : (0 : Int64).toInt = 0 := rfl
    rw [if_pos hfits, if_neg (by omega), if_neg (by omega), if_neg (by omega)]
    have hrest : (size.toInt - (reserved.toInt + total sections)).toNat =
        size.toInt.toNat - (reserved.toInt.toNat + total sections) := by omega
    rw [layout, hrest, Int.toNat_of_nonneg h₀]
  · rw [if_neg hfits, if_pos (by omega)]

/-- The bytes up to the end of the last section. -/
def front (start : Nat) (sections : List ByteArray) : Bytes :=
  List.replicate start 0 ++ (sections.map fun s => s.data.toList).flatten

@[simp] theorem length_front (start : Nat) (sections : List ByteArray) :
    (front start sections).length = start + total sections := by
  rw [front, List.length_append, List.length_replicate, length_flatten]

theorem toList_layout (start size : Nat) (sections : List ByteArray) :
    (layout start size sections).bytes.data.toList =
      front start sections ++ List.replicate (size - (start + total sections)) 0 := by
  rw [layout, toList_extendZeros, toList_foldl_append, toList_extendZeros, front]
  rfl

section
variable {start size : Nat} {sections : List ByteArray} (h : start + total sections ≤ size)
include h

theorem size_layout : (layout start size sections).bytes.size = size := by
  have hlen := congrArg List.length (toList_layout start size sections)
  simp only [List.length_append, List.length_replicate, length_front, Array.length_toList] at hlen
  show (layout start size sections).bytes.data.size = size
  omega

/-- Which byte stands at a place does not depend on the size. -/
theorem getElem?_layout {i : Nat} (hi : i < size) :
    (layout start size sections).bytes.data.toList[i]? = some ((front start sections).getD i 0) := by
  have hlen := length_front start sections
  rw [toList_layout, List.getElem?_append, List.getD_eq_getElem?_getD]
  split
  · rename_i hin
    simp [List.getElem?_eq_getElem hin]
  · rw [List.getElem?_replicate, if_pos (by omega), List.getElem?_eq_none (by omega)]
    rfl

theorem getElem?_layout_behind {i : Nat} (hused : start + total sections ≤ i) (hi : i < size) :
    (layout start size sections).bytes.data.toList[i]? = some 0 := by
  rw [getElem?_layout h hi, List.getD_eq_default _ _ (by simpa using hused)]

end

theorem head?_offsetsFrom {start : Int} {sections : List ByteArray} (hne : sections ≠ []) :
    (offsetsFrom start sections).head? = some start := by
  rw [List.head?_eq_getElem?, getElem?_offsetsFrom (List.length_pos_of_ne_nil hne)]
  simp [total]

/-- In front of the sections are zeros. -/
theorem replicate_prefix_layout (start size : Nat) (sections : List ByteArray) :
    List.replicate start 0 <+: (layout start size sections).bytes.data.toList := by
  rw [toList_layout, front, List.append_assoc]
  exact List.prefix_append _ _

end Image
end NetImage
