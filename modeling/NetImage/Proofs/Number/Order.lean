import Mathlib
import NetImage.Proofs.Number.Denotation

/-!
# NetImage.Proofs.Number.Order

The order of numbers of 64 bits is the order of the numbers they stand for. A significand has all its
digits unless the exponent is the least one, so that exponents can be compared first.

* `Rounding.Reads`: the extended real number of a word.
* `Rounding.compare_of_stands`, `Rounding.compare_of_reads`: comparing words taken apart.
* `Rounding.Reads.le_iff`, `lt_iff`, `beq_iff`: comparing numbers.
-/

namespace NetImage
namespace Rounding

open Float.Model (UnpackedFloat)
open Float.Model.UnpackedFloat (Sign)

/-! ## Finite words -/

section Finite

variable {m n : ℕ} {e f : ℤ}

theorem Canonical.lt_of_exponent_lt (hm : Canonical m e) (hn : Canonical n f) (h : e < f) :
    (m * 2 ^ e : ℝ) < n * 2 ^ f := by
  have hleast := hm.least
  -- the greater exponent is not the least one, so its significand has all its digits
  have hfull : (2 : ℝ) ^ 52 ≤ n := by exact_mod_cast hn.normal.resolve_right (by omega)
  have hdigits : (m : ℝ) < 2 ^ 53 := by exact_mod_cast hm.digits
  have hpow : (2 : ℝ) ^ e * 2 ≤ 2 ^ f := by
    rw [← zpow_add_one₀ two_ne_zero]
    exact zpow_le_zpow_right₀ one_le_two (by omega)
  have := two_zpow_pos e
  calc (m : ℝ) * 2 ^ e < 2 ^ 53 * 2 ^ e := by gcongr
    _ = 2 ^ 52 * (2 ^ e * 2) := by ring
    _ ≤ n * 2 ^ f := by gcongr

theorem Canonical.cmp_eq (hm : Canonical m e) (hn : Canonical n f) :
    cmp (m * 2 ^ e : ℝ) (n * 2 ^ f) = (compare e f).then (compare m n) := by
  rcases lt_trichotomy e f with h | rfl | h
  · rw [compare_lt_iff_lt.mpr h, (hm.lt_of_exponent_lt hn h).cmp_eq_lt]
    rfl
  · rw [compare_eq_iff_eq.mpr rfl, cmp_mul_pos_right (two_zpow_pos e),
      Nat.strictMono_cast.cmp_map_eq, cmp_eq_compare]
    rfl
  · rw [compare_gt_iff_gt.mpr h, (hn.lt_of_exponent_lt hm h).cmp_eq_gt]
    rfl

end Finite

theorem compare_of_stands {u v : UnpackedFloat} {a b : ℝ} (hu : Stands u a) (hv : Stands v b) :
    u.compare v = some (cmp a b) := by
  have hpos : ∀ {m : ℕ} (e : ℤ), 0 < m → (0 : ℝ) < m * 2 ^ e := fun e hm =>
    mul_pos (by exact_mod_cast hm) (two_zpow_pos e)
  cases hu with
  | zero s =>
    cases hv with
    | zero t => rw [cmp_self_eq_eq]; rfl
    | @finite t n f hn h' =>
      cases t with
      | negative => rw [signed, (neg_neg_of_pos (hpos f hn)).cmp_eq_gt]; rfl
      | positive => rw [signed, (hpos f hn).cmp_eq_lt]; rfl
  | @finite s m e hm h =>
    cases hv with
    | zero t =>
      cases s with
      | negative => rw [signed, (neg_neg_of_pos (hpos e hm)).cmp_eq_lt]; rfl
      | positive => rw [signed, (hpos e hm).cmp_eq_gt]; rfl
    | @finite t n f hn h' =>
      have hm' := hpos e hm
      have hn' := hpos f hn
      cases s with
      | negative =>
        cases t with
        | negative =>
          -- among negative numbers the words are compared the other way round
          have hneg : StrictAnti fun x : ℝ => -x := fun _ _ hlt => neg_lt_neg hlt
          rw [signed, signed, hneg.cmp_map_eq, ← cmp_swap, h.cmp_eq h']
          rfl
        | positive =>
          rw [signed, signed, ((neg_neg_of_pos hm').trans hn').cmp_eq_lt]
          rfl
      | positive =>
        cases t with
        | negative =>
          rw [signed, signed, ((neg_neg_of_pos hn').trans hm').cmp_eq_gt]
          rfl
        | positive => rw [signed, signed, h.cmp_eq h']; rfl

theorem compare_infinity_right {u : UnpackedFloat} {a : ℝ} (hu : Stands u a) (s : Sign) :
    u.compare (.infinity s) = some (if isNegative s then .gt else .lt) := by
  cases hu <;> cases s <;> rfl

theorem compare_infinity_left {v : UnpackedFloat} {b : ℝ} (s : Sign) (hv : Stands v b) :
    UnpackedFloat.compare (.infinity s) v = some (if isNegative s then .lt else .gt) := by
  cases hv <;> cases s <;> rfl

/-! ## All words -/

/-- The extended real number that a number of 64 bits stands for. What is not a number has none. -/
inductive Reads (x : Float) : EReal → Prop
  | finite {r : ℝ} (h : Denotes x r) : Reads x r
  | bottom (h : valueOf64 x = .infinite true) : Reads x ⊥
  | top (h : valueOf64 x = .infinite false) : Reads x ⊤

theorem unpack_of_special {x : Float}
    (h : valueOf64 x = .nan ∨ ∃ negative, valueOf64 x = .infinite negative) :
    x.toModel.unpack = .notANumber ∧ valueOf64 x = .nan ∨
      ∃ s, x.toModel.unpack = .infinity s ∧ valueOf64 x = .infinite (isNegative s) := by
  obtain ⟨s, E, M, hunpack, hvalue⟩ := exists_components x
  have hinfinite : E.toNat = 2047 := by
    by_contra hfinite
    rw [if_neg hfinite] at hvalue
    rcases h with h | ⟨negative, h⟩ <;> rw [hvalue] at h <;> split at h <;> cases h
  rw [if_pos hinfinite] at hvalue
  simp only [UnpackedFloat.unpack, UnpackedFloat.unpackMantissa_packComponents,
    UnpackedFloat.unpackExponent_packComponents, UnpackedFloat.unpackSign_packComponents,
    Sign.ofBitVec_toBitVec] at hunpack
  rw [if_pos (eq_neg_one_iff.mpr hinfinite)] at hunpack
  by_cases hM : M.toNat = 0
  · rw [if_pos hM] at hvalue
    rw [if_pos (BitVec.eq_of_toNat_eq hM)] at hunpack
    exact .inr ⟨s, hunpack, hvalue⟩
  · rw [if_neg hM] at hvalue
    rw [if_neg fun hzero => hM (by rw [hzero]; rfl)] at hunpack
    exact .inl ⟨hunpack, hvalue⟩

theorem unpack_of_nan {x : Float} (h : valueOf64 x = .nan) : x.toModel.unpack = .notANumber := by
  rcases unpack_of_special (.inl h) with ⟨hunpack, -⟩ | ⟨s, -, hvalue⟩
  · exact hunpack
  · rw [h] at hvalue
    cases hvalue

theorem unpack_of_infinite {x : Float} {negative : Bool} (h : valueOf64 x = .infinite negative) :
    x.toModel.unpack = .infinity (if negative then .negative else .positive) := by
  rcases unpack_of_special (.inr ⟨negative, h⟩) with ⟨-, hvalue⟩ | ⟨s, hunpack, hvalue⟩
  · rw [h] at hvalue
    cases hvalue
  · rw [h] at hvalue
    obtain rfl := RealValue.infinite.inj hvalue
    rw [hunpack]
    cases s <;> rfl

theorem compare_of_reads {x y : Float} {v w : EReal} (hx : Reads x v) (hy : Reads y w) :
    x.toModel.unpack.compare y.toModel.unpack = some (cmp v w) := by
  cases hx with
  | finite hx =>
    cases hy with
    | finite hy =>
      rw [EReal.coe_strictMono.cmp_map_eq]
      exact compare_of_stands (denotes_iff.mp hx) (denotes_iff.mp hy)
    | bottom hy =>
      rw [unpack_of_infinite hy, (EReal.bot_lt_coe _).cmp_eq_gt]
      exact compare_infinity_right (denotes_iff.mp hx) .negative
    | top hy =>
      rw [unpack_of_infinite hy, (EReal.coe_lt_top _).cmp_eq_lt]
      exact compare_infinity_right (denotes_iff.mp hx) .positive
  | bottom hx =>
    rw [unpack_of_infinite hx]
    cases hy with
    | finite hy =>
      rw [(EReal.bot_lt_coe _).cmp_eq_lt]
      exact compare_infinity_left .negative (denotes_iff.mp hy)
    | bottom hy => rw [unpack_of_infinite hy, cmp_self_eq_eq]; rfl
    | top hy => rw [unpack_of_infinite hy, bot_lt_top.cmp_eq_lt]; rfl
  | top hx =>
    rw [unpack_of_infinite hx]
    cases hy with
    | finite hy =>
      rw [(EReal.coe_lt_top _).cmp_eq_gt]
      exact compare_infinity_left .positive (denotes_iff.mp hy)
    | bottom hy => rw [unpack_of_infinite hy, bot_lt_top.cmp_eq_gt]; rfl
    | top hy => rw [unpack_of_infinite hy, cmp_self_eq_eq]; rfl

/-! ## Numbers -/

section Numbers

variable {x y : Float} {v w : EReal}

theorem exists_reads (h : valueOf64 x ≠ .nan) : ∃ v, Reads x v := by
  cases hx : valueOf64 x with
  | nan => exact absurd hx h
  | infinite negative =>
    cases negative with
    | true => exact ⟨⊥, .bottom hx⟩
    | false => exact ⟨⊤, .top hx⟩
  | finite negative significand exponent => exact ⟨_, .finite ⟨negative, significand, exponent, hx, rfl⟩⟩

theorem Reads.ne_nan (h : Reads x v) : valueOf64 x ≠ .nan := by
  cases h with
  | finite h =>
    obtain ⟨_, _, _, hx, -⟩ := h
    simp [hx]
  | bottom hx => simp [hx]
  | top hx => simp [hx]

theorem isNaN_iff : x.isNaN = true ↔ valueOf64 x = .nan := by
  constructor
  · intro hnan
    by_contra h
    obtain ⟨v, hv⟩ := exists_reads h
    have hcompare := compare_of_reads hv hv
    change x.toModel.unpack.isNaN = true at hnan
    generalize x.toModel.unpack = u at hnan hcompare
    cases u with
    | notANumber => cases hcompare
    | _ => cases hnan
  · intro h
    show x.toModel.unpack.isNaN = true
    rw [unpack_of_nan h]
    rfl

theorem Reads.isNaN_eq_false (h : Reads x v) : x.isNaN = false :=
  Bool.eq_false_iff.mpr (mt isNaN_iff.mp h.ne_nan)

theorem Reads.le_iff (hx : Reads x v) (hy : Reads y w) : x ≤ y ↔ v ≤ w := by
  show decide (x.toModel.unpack.le y.toModel.unpack = true) = true ↔ v ≤ w
  rw [decide_eq_true_iff, UnpackedFloat.le, compare_of_reads hx hy, Option.any_some,
    Ordering.isLE_iff_ne_gt, cmp_eq_gt_iff, not_lt]

theorem Reads.lt_iff (hx : Reads x v) (hy : Reads y w) : x < y ↔ v < w := by
  show decide (x.toModel.unpack.lt y.toModel.unpack = true) = true ↔ v < w
  rw [decide_eq_true_iff, UnpackedFloat.lt, compare_of_reads hx hy, beq_iff_eq, Option.some_inj,
    cmp_eq_lt_iff]

theorem Reads.beq_iff (hx : Reads x v) (hy : Reads y w) : (x == y) = true ↔ v = w := by
  show x.toModel.unpack.beq y.toModel.unpack = true ↔ v = w
  rw [UnpackedFloat.beq, compare_of_reads hx hy, beq_iff_eq, Option.some_inj, cmp_eq_eq_iff]

theorem beq_of_nan (h : valueOf64 x = .nan) (y : Float) : (x == y) = false := by
  show x.toModel.unpack.beq y.toModel.unpack = false
  rw [unpack_of_nan h]
  rfl

/-- What is not a number is not comparable. -/
theorem exists_reads_of_le (h : x ≤ y) : ∃ v w, Reads x v ∧ Reads y w ∧ v ≤ w := by
  have hle : x.toModel.unpack.le y.toModel.unpack = true := of_decide_eq_true h
  have hx : valueOf64 x ≠ .nan := by
    intro hnan
    rw [unpack_of_nan hnan] at hle
    cases hle
  have hy : valueOf64 y ≠ .nan := by
    intro hnan
    rw [unpack_of_nan hnan] at hle
    generalize x.toModel.unpack = u at hle
    cases u <;> cases hle
  obtain ⟨v, hv⟩ := exists_reads hx
  obtain ⟨w, hw⟩ := exists_reads hy
  exact ⟨v, w, hv, hw, (hv.le_iff hw).mp h⟩

end Numbers

end Rounding
end NetImage
