import NetImage.Proofs.Build.Folding
import NetImage.Proofs.Graph.ElementCount

/-!
# NetImage.Proofs.Build.Squeeze

Dropping axes is taking places out of a shape. Each axis names a place, from the start or from the
end, and a place may be named by several axes, so only the set of places that are named counts.
Every place that goes has extent one, so the number of elements stays.

* `Squeeze.Names`, `Squeeze.Droppable`, `Squeeze.Wrong`: the place of an axis, and what can be wrong
  with it.
* `Squeeze.drop_eq_ok`, `Squeeze.drop_eq_error`: one axis.
* `squeeze_eq_ok`, `squeeze_eq_error`: all axes.
* `squeeze_takes_out_named`: what a shape is without its axes.
-/

namespace NetImage
namespace Squeeze

/-- The axis names place `i` of a shape with `n` dims, counted from the start or from the end. -/
def Names (n : Nat) (axis : Int64) (i : Nat) : Prop :=
  i < n ∧ (axis.toInt = i ∨ axis.toInt + n = i)

instance (n : Nat) (axis : Int64) (i : Nat) : Decidable (Names n axis i) :=
  inferInstanceAs (Decidable (_ ∧ _))

/-- The axis is in range and names a place of extent one. -/
structure Droppable (dims : List Int64) (axis : Int64) : Prop where
  low : -(dims.length : Int) ≤ axis.toInt
  high : axis.toInt < dims.length
  one : ∃ i, Names dims.length axis i ∧ dims[i]? = some 1

/-- What is said of an axis that cannot be dropped. -/
inductive Wrong (dims : List Int64) (axis : Int64) : AxisError → Prop
  | range (h : axis.toInt < -(dims.length : Int) ∨ (dims.length : Int) ≤ axis.toInt) :
      Wrong dims axis (.range axis dims.length)
  | size {i : Nat} {dim : Int64} (hname : Names dims.length axis i) (hdim : dims[i]? = some dim)
      (hne : dim ≠ 1) : Wrong dims axis (.size axis dim)

/-- The axes are the same, or two ways to name one place. -/
def Same (n : Nat) (a b : Int64) : Prop := a = b ∨ ∃ i, Names n a i ∧ Names n b i

/-- Every axis of one list is in the other, in one of the two ways to write it. Order and repetitions
do not matter. -/
def SameAxes (n : Nat) (axes axes' : List Int64) : Prop :=
  (∀ a ∈ axes, ∃ b ∈ axes', Same n a b) ∧ ∀ b ∈ axes', ∃ a ∈ axes, Same n a b

/-! ## One axis -/

variable {n i j : Nat} {a b axis : Int64} {dims axes axes' : List Int64} {e : AxisError}

theorem Names.unique (h : Names n axis i) (h' : Names n axis j) : i = j := by
  unfold Names at h h'
  omega

theorem names_iff_position? : Names n axis i ↔ position? n axis = some i := by
  constructor
  · rintro ⟨hi, hname⟩
    exact (position?_eq_some hi).mpr hname
  · intro h
    have hi : i < n := by
      unfold position? at h
      simp only [Option.ite_none_right_eq_some, Option.some.injEq] at h
      omega
    exact ⟨hi, (position?_eq_some hi).mp h⟩

theorem position?_eq_none :
    position? n axis = none ↔ axis.toInt < -(n : Int) ∨ (n : Int) ≤ axis.toInt := by
  unfold position?
  simp only [ite_eq_right_iff, reduceCtorEq, imp_false]
  split <;> omega

theorem drop_eq_ok : drop dims axis = .ok i ↔ Names dims.length axis i ∧ dims[i]? = some 1 := by
  rw [names_iff_position?, drop]
  cases hplace : position? dims.length axis with
  | none => simp
  | some j =>
    have hj : j < dims.length := (names_iff_position?.mpr hplace).1
    simp only [List.getD_eq_getElem?_getD, List.getElem?_eq_getElem hj, Option.getD_some,
      Option.some.injEq]
    constructor
    · intro h
      split at h
      · cases h
        exact ⟨rfl, by simpa [hj] using ‹_›⟩
      · cases h
    · rintro ⟨rfl, hone⟩
      rw [List.getElem?_eq_getElem hj, Option.some.injEq] at hone
      rw [if_pos hone]

theorem drop_eq_error : drop dims axis = .error e ↔ Wrong dims axis e := by
  rw [drop]
  cases hplace : position? dims.length axis with
  | none =>
    have hrange := position?_eq_none.mp hplace
    constructor
    · intro h
      cases h
      exact .range hrange
    · intro h
      cases h with
      | range => rfl
      | size hname => rw [names_iff_position?.mp hname] at hplace; cases hplace
  | some j =>
    have hname := names_iff_position?.mpr hplace
    simp only [List.getD_eq_getElem?_getD, List.getElem?_eq_getElem hname.1, Option.getD_some]
    constructor
    · intro h
      split at h
      · cases h
      · cases h
        exact .size hname (List.getElem?_eq_getElem hname.1) ‹_›
    · intro h
      cases h with
      | range hrange => rw [position?_eq_none.mpr hrange] at hplace; cases hplace
      | size hname' hdim hne =>
        obtain rfl := hname.unique hname'
        rw [List.getElem?_eq_getElem hname.1, Option.some.injEq] at hdim
        rw [hdim, if_neg hne]

theorem exists_drop_iff : (∃ i, drop dims axis = .ok i) ↔ Droppable dims axis := by
  simp only [drop_eq_ok]
  constructor
  · rintro ⟨i, ⟨hi, hname⟩, hone⟩
    exact ⟨by omega, by omega, i, ⟨hi, hname⟩, hone⟩
  · exact Droppable.one

/-! ## Two lists of axes -/

theorem Same.names_iff (h : Same n a b) : Names n a i ↔ Names n b i := by
  obtain rfl | ⟨j, ha, hb⟩ := h
  · rfl
  · constructor
    · intro h
      rwa [h.unique ha]
    · intro h
      rwa [h.unique hb]

theorem Same.droppable_iff (h : Same dims.length a b) : Droppable dims a ↔ Droppable dims b := by
  simp only [← exists_drop_iff, drop_eq_ok, h.names_iff]

theorem SameAxes.forall_droppable_iff (h : SameAxes dims.length axes axes') :
    (∀ a ∈ axes, Droppable dims a) ↔ ∀ b ∈ axes', Droppable dims b := by
  constructor
  · intro hall b hb
    obtain ⟨a, ha, hsame⟩ := h.2 b hb
    exact hsame.droppable_iff.mp (hall a ha)
  · intro hall a ha
    obtain ⟨b, hb, hsame⟩ := h.1 a ha
    exact hsame.droppable_iff.mpr (hall b hb)

theorem SameAxes.exists_names_iff (h : SameAxes n axes axes') :
    (∃ a ∈ axes, Names n a i) ↔ ∃ b ∈ axes', Names n b i := by
  constructor
  · rintro ⟨a, ha, hname⟩
    obtain ⟨b, hb, hsame⟩ := h.1 a ha
    exact ⟨b, hb, hsame.names_iff.mp hname⟩
  · rintro ⟨b, hb, hname⟩
    obtain ⟨a, ha, hsame⟩ := h.2 b hb
    exact ⟨a, ha, hsame.names_iff.mpr hname⟩

/-- A place is taken out if and only if some axis names it. -/
theorem withoutAxes_eq (dims axes : List Int64) : withoutAxes dims axes =
    (dims.zipIdx.filter fun x => !axes.any fun a => decide (Names dims.length a x.2)).map
      Prod.fst := by
  rw [withoutAxes]
  congr 1
  refine List.filter_congr ?_
  rintro ⟨d, i⟩ hmem
  have hi : i < dims.length := (List.mem_zipIdx' hmem).1
  rw [Bool.eq_iff_iff]
  simp [Names, hi]

theorem SameAxes.withoutAxes_eq (h : SameAxes dims.length axes axes') :
    withoutAxes dims axes = withoutAxes dims axes' := by
  have hnamed : ∀ i, (axes.any fun a => decide (Names dims.length a i)) =
      axes'.any fun a => decide (Names dims.length a i) := by
    intro i
    rw [Bool.eq_iff_iff]
    simpa using h.exists_names_iff
  simp only [Squeeze.withoutAxes_eq, hnamed]

/-- Places of extent one do not count in the product. -/
theorem prod_withoutAxes (h : ∀ a ∈ axes, Droppable dims a) :
    ((withoutAxes dims axes).map Int64.toInt).prod = (dims.map Int64.toInt).prod := by
  obtain ⟨kept, hkept⟩ : ∃ p : Int64 × Nat → Bool, p = fun x =>
    !axes.any fun a => decide (Names dims.length a x.2) := ⟨_, rfl⟩
  have hdims : dims.map Int64.toInt = dims.zipIdx.map fun x => x.1.toInt := by
    rw [← Function.comp_def Int64.toInt, ← List.map_map, List.zipIdx_map_fst]
  have hout : ((dims.zipIdx.filter fun x => ¬kept x).map fun x => x.1.toInt).prod = 1 := by
    refine List.prod_eq_one ?_
    intro extent hextent
    obtain ⟨⟨d, i⟩, hmem, rfl⟩ := List.mem_map.mp hextent
    obtain ⟨hplace, hnamed⟩ := List.mem_filter.mp hmem
    obtain ⟨a, ha, hname⟩ : ∃ a ∈ axes, Names dims.length a i := by simpa [hkept] using hnamed
    obtain ⟨j, hname', hone⟩ := (h a ha).one
    obtain rfl := hname.unique hname'
    rw [List.mk_mem_zipIdx_iff_getElem?.mp hplace, Option.some.injEq] at hone
    rw [hone]
    rfl
  -- the product is that of what is kept times that of what goes, which is one
  have hsplit := List.prod_map_filter_mul_prod_map_filter_not
    (fun x => kept x = true) (fun x : Int64 × Nat => x.1.toInt) dims.zipIdx
  rw [hout, mul_one] at hsplit
  rw [hdims, ← hsplit, Squeeze.withoutAxes_eq, ← hkept, List.map_map]
  simp only [Bool.decide_eq_true]
  rfl

theorem elementCount_withoutAxes (h : ∀ a ∈ axes, Droppable dims a) :
    elementCount (withoutAxes dims axes) = elementCount dims := by
  rw [← Int64.toInt_inj, toInt_elementCount_bmod, toInt_elementCount_bmod, prod_withoutAxes h]

end Squeeze

/-! ## All axes -/

open Squeeze

variable {dims axes : List Int64}

theorem exists_squeeze_iff :
    (∃ out, squeeze dims axes = .ok out) ↔ ∀ a ∈ axes, Droppable dims a := by
  simp only [squeeze, bind_eq_ok, ← exists_drop_iff]
  rw [← exists_mapM_iff]
  constructor
  · rintro ⟨_, dropped, hdropped, -⟩
    exact ⟨dropped, hdropped⟩
  · rintro ⟨dropped, hdropped⟩
    exact ⟨_, dropped, hdropped, rfl⟩

theorem squeeze_eq_ok {out : List Int64} : squeeze dims axes = .ok out ↔
    (∀ a ∈ axes, Droppable dims a) ∧ withoutAxes dims axes = out := by
  constructor
  · intro h
    exact ⟨exists_squeeze_iff.mp ⟨out, h⟩, (eq_withoutAxes_of_squeeze h).symm⟩
  · rintro ⟨hall, rfl⟩
    obtain ⟨out, hout⟩ := exists_squeeze_iff.mpr hall
    rw [hout, eq_withoutAxes_of_squeeze hout]

/-- The error is that of the first axis that cannot be dropped. -/
theorem squeeze_eq_error {e : AxisError} : squeeze dims axes = .error e ↔
    ∃ before axis after, axes = before ++ axis :: after ∧ (∀ b ∈ before, Droppable dims b) ∧
      Wrong dims axis e := by
  have hpass : squeeze dims axes = .error e ↔ axes.mapM (drop dims) = .error e := by
    rw [squeeze, bind_eq_error]
    constructor
    · rintro (h | ⟨_, -, h⟩)
      · exact h
      · cases h
    · exact .inl
  simp only [hpass, mapM_eq_error_iff, exists_drop_iff, drop_eq_error]

/-- **Dropping axes.** A shape can be squeezed if and only if every axis is in range and names a place
of extent one. What is left are the places that no axis names, in order, with as many elements.
How the axes are ordered, repeated or written makes no difference. If it fails, the error is that of
the first axis that is wrong. -/
theorem squeeze_takes_out_named (dims axes : List Int64) :
    ((∃ out, squeeze dims axes = .ok out) ↔ ∀ a ∈ axes, Droppable dims a) ∧
    (∀ out, squeeze dims axes = .ok out →
      out = (dims.zipIdx.filter fun x => !axes.any fun a => decide (Names dims.length a x.2)).map
        Prod.fst ∧
      (out.map Int64.toInt).prod = (dims.map Int64.toInt).prod ∧
      elementCount out = elementCount dims) ∧
    (∀ axes', SameAxes dims.length axes axes' →
      ∀ out, squeeze dims axes = .ok out ↔ squeeze dims axes' = .ok out) ∧
    (∀ e, squeeze dims axes = .error e ↔
      ∃ before axis after, axes = before ++ axis :: after ∧ (∀ b ∈ before, Droppable dims b) ∧
        Wrong dims axis e) := by
  refine ⟨exists_squeeze_iff, ?_, ?_, fun e => squeeze_eq_error⟩
  · intro out hout
    obtain ⟨hall, rfl⟩ := squeeze_eq_ok.mp hout
    exact ⟨withoutAxes_eq dims axes, prod_withoutAxes hall, elementCount_withoutAxes hall⟩
  · intro axes' hsame out
    rw [squeeze_eq_ok, squeeze_eq_ok, hsame.withoutAxes_eq, hsame.forall_droppable_iff]

/-- The third and the first place of a shape, the third under both of its names. Where the second is
named before one that is not there, it is the second that is reported. -/
theorem squeeze_two_of_four :
    SameAxes 4 [-2, 0, 2] [0, 2] ∧
    squeeze [1, 2, 1, 3] [0, 2] = .ok [2, 3] ∧
    squeeze [1, 2, 1, 3] [-2, 0, 2] = .ok [2, 3] ∧
    squeeze [1, 2, 1, 3] [-4, 1, 9] = .error (.size 1 2) ∧
    ∃ before axis after, ([-4, 1, 9] : List Int64) = before ++ axis :: after ∧
      (∀ b ∈ before, Droppable [1, 2, 1, 3] b) ∧ Wrong [1, 2, 1, 3] axis (.size 1 2) := by
  have hsame : SameAxes 4 [-2, 0, 2] [0, 2] := by
    have hthird : Same 4 (-2) 2 := .inr ⟨2, by decide, by decide⟩
    constructor
    · refine List.forall_mem_cons.mpr ⟨⟨2, by simp, hthird⟩, ?_⟩
      intro a ha
      exact ⟨a, ha, .inl rfl⟩
    · intro b hb
      exact ⟨b, List.mem_cons_of_mem _ hb, .inl rfl⟩
  have hplain : squeeze [1, 2, 1, 3] [0, 2] = .ok [2, 3] := by decide
  have hwrong : squeeze [1, 2, 1, 3] [-4, 1, 9] = .error (.size 1 2) := by decide
  obtain ⟨-, -, hmoved, -⟩ := squeeze_takes_out_named [1, 2, 1, 3] [-2, 0, 2]
  obtain ⟨-, -, -, hfirst⟩ := squeeze_takes_out_named [1, 2, 1, 3] [-4, 1, 9]
  exact ⟨hsame, hplain, (hmoved _ hsame _).mpr hplain, hwrong, (hfirst _).mp hwrong⟩

end NetImage
