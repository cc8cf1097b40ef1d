import NetImage.Proofs.Image

/-!
# NetImage.Proofs.Assembly

Assembling an image, for sections of any number and size. Sections that fit are written one after the
other over zeros, each where the one before ended. None is cut short and none touches another, so the
image holds each at its offset and zeros everywhere else.

* `Image.copyAt`, `Image.copyAll`: copying a section as far as there is room, and all sections.
* `Image.copyAll_zeros`: the loop over sections that fit.
* `Image.exists_section`: the bytes behind the reserved ones belong to some section.
* `Image.assemble_holds`: when an image can be assembled, and what it holds.
-/

namespace NetImage
namespace Image

/-! ## Copying -/

/-- Copies as much of `source` as there is room for over the bytes from `start` on, and counts what was
copied. No byte may start behind the end. -/
def copyAt (bytes : Bytes) (start : Nat) (source : Bytes) : Option (Bytes × Nat) :=
  if bytes.length < start then none
  else
    let count := min source.length (bytes.length - start)
    some (bytes.take start ++ source.take count ++ bytes.drop (start + count), count)

/-- Copies the sections one after the other, each where the one before ended. The starts are kept, and
the end of the last. -/
def copyAll (bytes : Bytes) (start : Nat) : List ByteArray → Option (Bytes × List Int × Nat)
  | [] => some (bytes, [], start)
  | s :: sections =>
    (copyAt bytes start s.data.toList).bind fun copied =>
      (copyAll copied.1 (start + copied.2) sections).map fun rest =>
        (rest.1, (start : Int) :: rest.2.1, rest.2.2)

/-- A section that has room is not cut short, and what is in front of it is kept. -/
theorem copyAt_of_room {front source : Bytes} {room : Nat} (h : source.length ≤ room) :
    copyAt (front ++ List.replicate room 0) front.length source =
      some (front ++ source ++ List.replicate (room - source.length) 0, source.length) := by
  have hcount : min source.length ((front ++ List.replicate room (0 : UInt8)).length - front.length) =
      source.length := by
    simp [h]
  rw [copyAt, if_neg (by simp)]
  simp only [hcount]
  rw [List.take_left, List.take_length, List.drop_append, List.drop_of_length_le (by omega)]
  simp

theorem offsetsFrom_cons (start : Int) (s : ByteArray) (sections : List ByteArray) :
    offsetsFrom start (s :: sections) = start :: offsetsFrom (start + s.size) sections := by
  rw [offsetsFrom, List.foldl_cons, offsetsFrom_acc, offsetsFrom, offsetsFrom_acc]
  rfl

theorem total_cons (s : ByteArray) (sections : List ByteArray) :
    total (s :: sections) = s.size + total sections := rfl

theorem copyAll_of_room (front : Bytes) {sections : List ByteArray} {room : Nat}
    (h : total sections ≤ room) :
    copyAll (front ++ List.replicate room 0) front.length sections =
      some (front ++ (sections.map fun s => s.data.toList).flatten ++
          List.replicate (room - total sections) 0,
        offsetsFrom front.length sections, front.length + total sections) := by
  -- generalized over the bytes in front, which the next section finds longer
  induction sections generalizing front room with
  | nil => simp [copyAll, total, offsetsFrom]
  | cons s sections ih =>
    rw [total_cons] at h
    have hsize : s.data.toList.length = s.size := rfl
    have hnext := ih (front ++ s.data.toList) (show total sections ≤ room - s.size by omega)
    rw [copyAll, copyAt_of_room (by omega), Option.bind_some]
    simp only [hsize]
    rw [List.length_append, hsize] at hnext
    rw [hnext, Option.map_some, offsetsFrom_cons, total_cons]
    simp [Nat.add_assoc, Nat.sub_sub]

theorem copyAll_zeros {start size : Nat} {sections : List ByteArray}
    (h : start + total sections ≤ size) :
    copyAll (List.replicate size 0) start sections =
      some ((layout start size sections).bytes.data.toList, (layout start size sections).offsets,
        start + total sections) := by
  have hzeros : List.replicate size (0 : UInt8) =
      List.replicate start 0 ++ List.replicate (size - start) 0 := by
    rw [List.replicate_append_replicate]
    congr 1
    omega
  have hcopied := copyAll_of_room (List.replicate start 0)
    (show total sections ≤ size - start by omega)
  rw [List.length_replicate] at hcopied
  rw [hzeros, hcopied, toList_layout, front, Nat.sub_sub]
  rfl

/-! ## Images -/

/-- Every byte between the start and the end belongs to a section. -/
theorem exists_section {sections : List ByteArray} {start k : Nat} (hlow : start ≤ k)
    (hhigh : k < start + total sections) :
    ∃ (i : Nat) (s : ByteArray), sections[i]? = some s ∧
      start + total (sections.take i) ≤ k ∧ k < start + total (sections.take i) + s.size := by
  induction sections generalizing start with
  | nil => simp [total] at hhigh; omega
  | cons s sections ih =>
    rw [total_cons] at hhigh
    rcases Nat.lt_or_ge k (start + s.size) with hin | hbehind
    · exact ⟨0, s, rfl, by simpa [total] using hlow, by simpa [total] using hin⟩
    · obtain ⟨i, s', hs', hfrom, hto⟩ := ih hbehind (by omega)
      refine ⟨i + 1, s', hs', ?_, ?_⟩
      · rw [List.take_succ_cons, total_cons]
        omega
      · rw [List.take_succ_cons, total_cons]
        omega

/-- An image of `size` bytes with the sections from `start` on, one right behind the other, and zeros
everywhere else. -/
structure Holds (start size : Int) (sections : List ByteArray) (im : Image) : Prop where
  size : (im.bytes.size : Int) = size
  length : im.offsets.length = sections.length
  offset : ∀ (i : Nat), i < sections.length →
    im.offsets[i]? = some (start + total (sections.take i))
  content : ∀ (i : Nat) (s : ByteArray) (offset : Int), sections[i]? = some s →
    im.offsets[i]? = some offset → im.part offset.toNat (offset.toNat + s.size) = s.data.toList
  zeros : ∀ k : Nat, k < im.bytes.size →
    (∀ (i : Nat) (s : ByteArray) (offset : Int), sections[i]? = some s →
      im.offsets[i]? = some offset → ¬(offset ≤ k ∧ k < offset + s.size)) →
    im.bytes.data.toList[k]? = some 0
  used : im.used = start + total sections
  /-- The same is reached by copying. -/
  copied : copyAll (List.replicate im.bytes.size 0) start.toNat sections =
    some (im.bytes.data.toList, im.offsets, im.used.toNat)

theorem length_offsetsFrom (start : Int) (sections : List ByteArray) :
    (offsetsFrom start sections).length = sections.length := by
  rw [offsetsFrom, offsetsFrom_acc]
  simp

/-- A byte that no section covers is in front of all of them or behind. -/
theorem getElem?_layout_outside {start size k : Nat} {sections : List ByteArray}
    (h : start + total sections ≤ size) (hk : k < size)
    (hout : k < start ∨ start + total sections ≤ k) :
    (layout start size sections).bytes.data.toList[k]? = some 0 := by
  rcases hout with hfront | hbehind
  · rw [getElem?_layout h hk, front, List.getD_append _ _ _ _ (by simpa using hfront),
      List.getD_replicate _ hfront]
  · exact getElem?_layout_behind h hbehind hk

theorem extendZeros_extendZeros (m n : Nat) (buffer : ByteArray) :
    extendZeros m (extendZeros n buffer) = extendZeros (n + m) buffer := by
  induction n generalizing buffer with
  | zero => rw [extendZeros, Nat.zero_add]
  | succ n ih => rw [extendZeros, ih, Nat.succ_add, extendZeros]

theorem layout_nil {start size : Nat} (h : start ≤ size) :
    layout start size [] = ⟨extendZeros size .empty, [], start⟩ := by
  have hsize : start + (size - (start + 0)) = size := by omega
  show Image.mk (extendZeros (size - (start + 0)) (extendZeros start .empty)) _ _ = _
  rw [extendZeros_extendZeros, hsize]
  rfl

section
variable {reserved size : Int64} {sections : List ByteArray} (h₀ : 0 ≤ reserved.toInt)
  (hlt : reserved.toInt + total sections < 2 ^ 63)
include h₀ hlt

/-- The same as for some sections if there are none. -/
theorem assemble_eq_layout : assemble reserved size sections =
    if reserved.toInt + total sections ≤ size.toInt then
      .ok (layout reserved.toInt.toNat size.toInt.toNat sections)
    else .error (.capacity (need reserved sections) size) := by
  by_cases hne : sections = []
  · subst hne
    have hneed := toInt_need_of_lt h₀ hlt
    rw [show (total [] : Int) = 0 from rfl, Int.add_zero] at hneed ⊢
    simp only [assemble, Int64.lt_iff_toInt_lt, hneed, List.isEmpty_nil, if_true]
    by_cases hfits : reserved.toInt ≤ size.toInt
    · have hzero : (0 : Int64).toInt = 0 := rfl
      rw [if_pos hfits, if_neg (by omega), if_neg (by omega), layout_nil (by omega),
        Int.toNat_of_nonneg h₀]
    · rw [if_neg hfits, if_pos (by omega)]
  · exact assemble_eq hne h₀ hlt size

theorem holds_of_assemble {im : Image} (h : assemble reserved size sections = .ok im) :
    Holds reserved.toInt size.toInt sections im := by
  have hassembled := h
  rw [assemble_eq_layout h₀ hlt] at h
  split at h
  · rename_i hfits
    obtain rfl := Except.ok.inj h
    obtain ⟨start, hstart⟩ := Int.eq_ofNat_of_zero_le h₀
    obtain ⟨n, hn⟩ := Int.eq_ofNat_of_zero_le (show 0 ≤ size.toInt by omega)
    rw [hstart, hn] at hfits
    simp only [hstart, hn, Int.toNat_natCast] at hassembled ⊢
    have hroom : start + total sections ≤ n := by omega
    have hsize := size_layout hroom
    refine ⟨by rw [hsize], length_offsetsFrom _ _, fun i hi => getElem?_offsetsFrom hi _, ?_, ?_, rfl,
      ?_⟩
    · intro i s offset hs hoffset
      obtain ⟨first, hfirst, hpart⟩ := section_eq hassembled hs
      rw [hfirst, Option.some.injEq] at hoffset
      rw [← hoffset, Int.toNat_natCast]
      exact (hpart 0 s.size le_rfl).trans (Bytes.slice_self s.data.toList)
    · intro k hk hout
      rw [hsize] at hk
      refine getElem?_layout_outside hroom hk ?_
      by_contra hin
      obtain ⟨i, s, hs, hlow, hhigh⟩ := exists_section (show start ≤ k by omega)
        (show k < start + total sections by omega)
      have hi : i < sections.length := (List.getElem?_eq_some_iff.mp hs).1
      exact hout i s _ hs (getElem?_offsetsFrom hi _) (by omega)
    · rw [hsize]
      exact copyAll_zeros hroom
  · cases h

end

/-- **Assembling.** Sections whose size with the reserved bytes is a 64-bit integer make an image if and
only if it has room for both. The image then holds each section at its offset, and otherwise the error
has what they need and the size of the image. -/
theorem assemble_holds (reserved size : Int64) (sections : List ByteArray)
    (h₀ : 0 ≤ reserved.toInt) (hlt : reserved.toInt + total sections < 2 ^ 63) :
    ((∃ im, assemble reserved size sections = .ok im) ↔
      reserved.toInt + total sections ≤ size.toInt) ∧
    (∀ e, assemble reserved size sections = .error e →
      ∃ need : Int64, need.toInt = reserved.toInt + total sections ∧ e = .capacity need size) ∧
    (∀ im, assemble reserved size sections = .ok im →
      Holds reserved.toInt size.toInt sections im) := by
  refine ⟨?_, ?_, fun im him => holds_of_assemble h₀ hlt him⟩
  · rw [assemble_eq_layout h₀ hlt]
    split <;> simp [*]
  · intro e he
    rw [assemble_eq_layout h₀ hlt] at he
    split at he
    · cases he
    · exact ⟨_, toInt_need_of_lt h₀ hlt, (Except.error.inj he).symm⟩

/-- An empty section between two others. -/
def threeSections : List ByteArray := [⟨#[1, 2]⟩, .empty, ⟨#[3]⟩]

/-- They fill an image of five bytes behind two reserved ones, and do not fit in four. -/
theorem threeSections_held :
    assemble 2 5 threeSections = .ok ⟨⟨#[0, 0, 1, 2, 3]⟩, [2, 4, 4], 5⟩ ∧
    Holds 2 5 threeSections ⟨⟨#[0, 0, 1, 2, 3]⟩, [2, 4, 4], 5⟩ ∧
    ¬∃ im, assemble 2 4 threeSections = .ok im := by
  have hfull : assemble 2 5 threeSections = .ok ⟨⟨#[0, 0, 1, 2, 3]⟩, [2, 4, 4], 5⟩ := by rfl
  obtain ⟨-, -, hholds⟩ := assemble_holds 2 5 threeSections (by decide) (by decide)
  obtain ⟨hroom, -, -⟩ := assemble_holds 2 4 threeSections (by decide) (by decide)
  exact ⟨hfull, hholds _ hfull, mt hroom.mp (by decide)⟩

end Image
end NetImage
