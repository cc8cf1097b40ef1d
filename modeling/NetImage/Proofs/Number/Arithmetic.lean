import Mathlib
import NetImage.Proofs.Number.Rounding

/-!
# NetImage.Proofs.Number.Arithmetic

Numbers of 64 bits and the real numbers they stand for. Every operation gives a number near to the
exact result, so its result stays within all bounds that 53 digits hold.

* `Rounding.stands_mul`, `stands_sub`, `stands_div`, `stands_sqrt`, `stands_ofNat`: operations on words
  taken apart.
-/

namespace NetImage
namespace Rounding

open Float.Model (UnpackedFloat)
open Float.Model.UnpackedFloat (ExtendedMantissa Accuracy Sign)

theorem near_self (x : ℝ) : Near x x := fun _ _ => ⟨id, id⟩

theorem truncates_exact (m : ℕ) (e : ℤ) :
    Truncates (.ofMantissaAndAccuracy m .exact) e (m * 2 ^ e) := by
  have := two_zpow_pos e
  refine ⟨le_rfl, ?_, by simp [ExtendedMantissa.ofMantissaAndAccuracy]⟩
  show (m : ℝ) * 2 ^ e < (m + 1) * 2 ^ e
  linarith

/-- The digits of a number that is known up to a fraction of the last place. -/
theorem truncates_inexact {m : ℕ} {e : ℤ} {x : ℝ} {acc : Accuracy} (hlower : m * 2 ^ e ≤ x)
    (hupper : x < (m + 1) * 2 ^ e) (hexact : m * 2 ^ e < x ∨ acc = .exact) :
    Truncates (.ofMantissaAndAccuracy m acc) e x := by
  refine ⟨by rwa [mantissa_ofMantissaAndAccuracy], by rwa [mantissa_ofMantissaAndAccuracy], ?_⟩
  intro hbits
  rw [mantissa_ofMantissaAndAccuracy]
  rcases hexact with hx | rfl
  · exact hx
  · simp [ExtendedMantissa.ofMantissaAndAccuracy] at hbits

/-! ## Products -/

theorem signed_mul (s t : Sign) (x y : ℝ) : signed (s * t) (x * y) = signed s x * signed t y := by
  cases s with
  | negative =>
    cases t with
    | negative => exact (neg_mul_neg x y).symm
    | positive => exact (neg_mul x y).symm
  | positive =>
    cases t with
    | negative => exact (mul_neg x y).symm
    | positive => rfl

theorem stands_mul {u v : UnpackedFloat} {x y : ℝ} (hu : Stands u x) (hv : Stands v y) :
    ∃ r, Stands (UnpackedFloat.mul Float.Model.Format.binary64 u v) r ∧ Near (x * y) r := by
  cases hu with
  | zero s =>
    rw [zero_mul]
    cases hv <;> exact ⟨0, .zero _, near_self 0⟩
  | @finite s m e hm h =>
    cases hv with
    | zero t =>
      rw [mul_zero]
      exact ⟨0, .zero _, near_self 0⟩
    | @finite t n f hn h' =>
      rw [← signed_mul]
      have hx : (m * 2 ^ e : ℝ) * (n * 2 ^ f) = (m * n : ℕ) * 2 ^ (e + f) := by
        rw [zpow_add₀ two_ne_zero]
        push_cast
        ring
      rw [hx]
      refine stands_roundWithAccuracy (truncates_exact (m * n) (e + f)) ?_ (s * t)
      -- a factor that has all its digits gives them to the product
      rcases h.normal with hnormal | rfl
      · exact .inl (hnormal.trans (Nat.le_mul_of_pos_right m hn))
      · rcases h'.normal with hnormal | rfl
        · exact .inl (hnormal.trans (Nat.le_mul_of_pos_left n hm))
        · exact .inr (by norm_num)

/-! ## Differences and integers -/

theorem zpow_sub_toNat {e t : ℤ} (h : t ≤ e) : (2 : ℝ) ^ e = 2 ^ (e - t).toNat * 2 ^ t := by
  rw [← zpow_natCast, ← zpow_add₀ two_ne_zero, Int.toNat_of_nonneg (by omega), sub_add_cancel]

theorem two_pow_log2_add_le {m : ℕ} (hm : m ≠ 0) (n : ℕ) : 2 ^ (m.log2 + n) ≤ m * 2 ^ n := by
  rw [pow_add]
  exact Nat.mul_le_mul_right _ (Nat.log2_self_le hm)

theorem stands_round {m : ℕ} (hm : m ≠ 0) (e : ℤ) (s : Sign) :
    ∃ r, Stands (UnpackedFloat.round Float.Model.Format.binary64 s m e) r ∧
      Near (signed s (m * 2 ^ e)) r := by
  obtain ⟨t, ht⟩ : ∃ t : ℤ, t = max (m.log2 + 1 + e - 53) (-1074) := ⟨_, rfl⟩
  obtain ⟨n, hn⟩ : ∃ n : ℕ, n = (e - t).toNat := ⟨_, rfl⟩
  have hx : (m * 2 ^ e : ℝ) = (m * 2 ^ n : ℕ) * 2 ^ (e - n) := by
    have : (2 : ℝ) ^ e = 2 ^ n * 2 ^ (e - n) := by
      rw [← zpow_natCast, ← zpow_add₀ two_ne_zero]
      congr 1
      omega
    rw [this]
    push_cast
    ring
  have henough : 2 ^ 52 ≤ m * 2 ^ n ∨ e - n ≤ -1074 := by
    by_cases hleast : e - n ≤ -1074
    · exact .inr hleast
    · refine .inl (le_trans ?_ (two_pow_log2_add_le hm n))
      exact Nat.pow_le_pow_right two_pos (by omega)
  rw [hx]
  have hround : UnpackedFloat.round Float.Model.Format.binary64 s m e =
      UnpackedFloat.roundWithAccuracy Float.Model.Format.binary64 s (m * 2 ^ n) (e - n) .exact := by
    show UnpackedFloat.roundWithAccuracy _ s (m <<< (e - _).toNat) (e - (e - _).toNat) .exact = _
    rw [targetExponent_eq, Float.Model.totalExponent, ← ht, ← hn, Nat.shiftLeft_eq]
  rw [hround]
  exact stands_roundWithAccuracy (truncates_exact _ _) henough s

theorem stands_normalize (k e : ℤ) (z : Sign) :
    ∃ r, Stands (UnpackedFloat.normalize Float.Model.Format.binary64 k e z) r ∧
      Near (k * 2 ^ e) r := by
  unfold UnpackedFloat.normalize
  rcases lt_trichotomy k 0 with hk | rfl | hk
  · rw [compare_lt_iff_lt.mpr hk]
    have hcast : ((-k).toNat : ℝ) = -k := by
      exact_mod_cast Int.toNat_of_nonneg (by omega : 0 ≤ -k)
    obtain ⟨r, hr, hnear⟩ := stands_round (m := (-k).toNat) (by omega) e .negative
    refine ⟨r, hr, ?_⟩
    have hx : signed .negative ((-k).toNat * 2 ^ e) = k * 2 ^ e := by
      simp [signed, hcast]
    rwa [hx] at hnear
  · exact ⟨0, .zero z, by simpa using near_self 0⟩
  · rw [compare_gt_iff_gt.mpr hk]
    have hcast : (k.toNat : ℝ) = k := by exact_mod_cast Int.toNat_of_nonneg hk.le
    obtain ⟨r, hr, hnear⟩ := stands_round (m := k.toNat) (by omega) e .positive
    refine ⟨r, hr, ?_⟩
    have hx : signed .positive (k.toNat * 2 ^ e) = k * 2 ^ e := by simp [signed, hcast]
    rwa [hx] at hnear

theorem stands_ofNat (n : ℕ) :
    ∃ r, Stands (UnpackedFloat.ofNat Float.Model.Format.binary64 n) r ∧ Near n r := by
  obtain ⟨r, hr, hnear⟩ := stands_normalize n 0 .positive
  exact ⟨r, hr, by simpa using hnear⟩

/-- A significand in units of a smaller exponent. -/
theorem signed_eq_apply {m : ℕ} {e t : ℤ} (h : t ≤ e) (s : Sign) :
    signed s (m * 2 ^ e) = (s.apply (m <<< (e - t).toNat : ℕ) : ℤ) * 2 ^ t := by
  rw [zpow_sub_toNat h, Nat.shiftLeft_eq]
  cases s with
  | negative =>
    simp only [signed, Sign.apply]
    push_cast
    ring
  | positive =>
    simp only [signed, Sign.apply]
    push_cast
    ring

theorem stands_neg_finite {s : Sign} {m : ℕ} {e : ℤ} {hm : 0 < m} (h : Canonical m e) :
    Stands (.finite (-s) m e hm) (-signed s (m * 2 ^ e)) := by
  have hneg : -signed s (m * 2 ^ e) = signed (-s) (m * 2 ^ e) := by
    cases s with
    | negative => exact neg_neg _
    | positive => rfl
  rw [hneg]
  exact .finite h

theorem stands_neg {u : UnpackedFloat} {x : ℝ} (hu : Stands u x) : Stands u.neg (-x) := by
  cases hu with
  | zero s =>
    rw [neg_zero]
    exact .zero (-s)
  | finite h => exact stands_neg_finite h

theorem stands_sub {u v : UnpackedFloat} {x y : ℝ} (hu : Stands u x) (hv : Stands v y) :
    ∃ r, Stands (UnpackedFloat.sub Float.Model.Format.binary64 u v) r ∧ Near (x - y) r := by
  cases hu with
  | zero s =>
    rw [zero_sub]
    cases hv with
    | zero t =>
      rw [neg_zero]
      refine ⟨0, ?_, near_self 0⟩
      simp only [UnpackedFloat.sub]
      split <;> exact .zero _
    | finite h' => exact ⟨_, stands_neg_finite h', near_self _⟩
  | @finite s m e hm h =>
    cases hv with
    | zero t =>
      rw [sub_zero]
      exact ⟨_, .finite h, near_self _⟩
    | @finite t n f hn h' =>
      rw [signed_eq_apply (min_le_left e f) s, signed_eq_apply (min_le_right e f) t, ← sub_mul,
        ← Int.cast_sub]
      exact stands_normalize _ _ _

/-! ## Quotients -/

theorem signed_div (s t : Sign) (x y : ℝ) : signed (s / t) (x / y) = signed s x / signed t y := by
  cases s with
  | negative =>
    cases t with
    | negative => exact (neg_div_neg_eq x y).symm
    | positive => exact (neg_div y x).symm
  | positive =>
    cases t with
    | negative => exact (div_neg x).symm
    | positive => rfl

theorem truncates_div (k : ℕ) {n : ℕ} (hn : 0 < n) (t : ℤ) :
    Truncates (.ofMantissaAndAccuracy (k / n) (UnpackedFloat.accuracyOfFraction (k % n) n)) t
      (k / n * 2 ^ t) := by
  have hn' : (0 : ℝ) < n := by exact_mod_cast hn
  have hpow := two_zpow_pos t
  have hdivmod : (k : ℝ) = n * (k / n : ℕ) + (k % n : ℕ) := by
    exact_mod_cast (Nat.div_add_mod k n).symm
  have hrest : ((k % n : ℕ) : ℝ) < n := by exact_mod_cast Nat.mod_lt _ hn
  refine truncates_inexact ?_ ?_ ?_
  · gcongr
    exact Nat.cast_div_le
  · gcongr
    rw [div_lt_iff₀ hn', hdivmod]
    linarith
  · by_cases hzero : k % n = 0
    · exact .inr (by rw [UnpackedFloat.accuracyOfFraction, if_pos hzero])
    · refine .inl ?_
      have : (0 : ℝ) < (k % n : ℕ) := by exact_mod_cast Nat.pos_of_ne_zero hzero
      gcongr
      rw [lt_div_iff₀ hn', hdivmod]
      linarith

theorem stands_divCore {m n : ℕ} (hm : m ≠ 0) (hn : 0 < n) (e f : ℤ) (s : Sign) :
    ∃ q t acc, UnpackedFloat.divCore Float.Model.Format.binary64 m e n f = (q, t, acc) ∧
      ∃ r, Stands (UnpackedFloat.roundWithAccuracy Float.Model.Format.binary64 s q t acc) r ∧
        Near (signed s (m * 2 ^ e / (n * 2 ^ f))) r := by
  obtain ⟨t, ht⟩ : ∃ t : ℤ, t = min (e - f)
      (max (m.log2 + 1 + e - (n.log2 + 1 + f) - 53) (-1074)) := ⟨_, rfl⟩
  obtain ⟨shift, hshift⟩ : ∃ k : ℕ, k = (e - f - t).toNat := ⟨_, rfl⟩
  have hx : (m * 2 ^ e / (n * 2 ^ f) : ℝ) = (m * 2 ^ shift : ℕ) / n * 2 ^ t := by
    have he : (2 : ℝ) ^ e = 2 ^ shift * 2 ^ t * 2 ^ f := by
      rw [← zpow_natCast, ← zpow_add₀ two_ne_zero, ← zpow_add₀ two_ne_zero]
      congr 1
      omega
    have := two_zpow_pos f
    rw [he]
    push_cast
    field_simp
  refine ⟨m * 2 ^ shift / n, t, UnpackedFloat.accuracyOfFraction (m * 2 ^ shift % n) n, ?_, ?_⟩
  · show (_, _, _) = _
    rw [targetExponent_eq, Float.Model.totalExponent, Float.Model.totalExponent, ← ht, ← hshift,
      Nat.shiftLeft_eq]
  · rw [hx]
    refine stands_roundWithAccuracy (truncates_div _ hn t) ?_ s
    by_cases hleast : t ≤ -1074
    · exact .inr hleast
    · refine .inl ((Nat.le_div_iff_mul_le hn).mpr ?_)
      calc 2 ^ 52 * n ≤ 2 ^ 52 * 2 ^ (n.log2 + 1) := Nat.mul_le_mul_left _ Nat.lt_log2_self.le
        _ = 2 ^ (52 + (n.log2 + 1)) := (pow_add 2 _ _).symm
        _ ≤ 2 ^ (m.log2 + shift) := Nat.pow_le_pow_right two_pos (by omega)
        _ ≤ m * 2 ^ shift := two_pow_log2_add_le hm shift

theorem stands_div {u v : UnpackedFloat} {x y : ℝ} (hu : Stands u x) (hv : Stands v y)
    (hy : y ≠ 0) :
    ∃ r, Stands (UnpackedFloat.div Float.Model.Format.binary64 u v) r ∧ Near (x / y) r := by
  cases hv with
  | zero t => exact absurd rfl hy
  | @finite t n f hn h' =>
    cases hu with
    | zero s =>
      rw [zero_div]
      exact ⟨0, .zero _, near_self 0⟩
    | @finite s m e hm h =>
      rw [← signed_div]
      obtain ⟨q, k, acc, hcore, r, hr, hnear⟩ := stands_divCore hm.ne' hn e f (s / t)
      refine ⟨r, ?_, hnear⟩
      simpa only [UnpackedFloat.div, hcore] using hr

/-! ## Square roots -/

/-- How much of a square root its whole part leaves. -/
def sqrtAccuracy (n : ℕ) : Accuracy :=
  if n - n.sqrt * n.sqrt = 0 then .exact
  else .inexact (if n - n.sqrt * n.sqrt ≤ n.sqrt then .lt else .gt)

theorem truncates_sqrt (n : ℕ) (t : ℤ) :
    Truncates (.ofMantissaAndAccuracy n.sqrt (sqrtAccuracy n)) t (√n * 2 ^ t) := by
  have ht := two_zpow_pos t
  have hle : n.sqrt * n.sqrt ≤ n := Nat.sqrt_le n
  refine truncates_inexact ?_ ?_ ?_
  · gcongr
    exact Real.nat_sqrt_le_real_sqrt
  · gcongr
    exact Real.real_sqrt_lt_nat_sqrt_succ
  · by_cases hzero : n - n.sqrt * n.sqrt = 0
    · exact .inr (by rw [sqrtAccuracy, if_pos hzero])
    · refine .inl ?_
      have hlt : (n.sqrt : ℝ) * n.sqrt < n := by exact_mod_cast (by omega : n.sqrt * n.sqrt < n)
      gcongr
      exact Real.lt_sqrt_of_sq_lt (by rwa [sq])

theorem stands_sqrtCore {m : ℕ} (hm : m ≠ 0) (e : ℤ) :
    ∃ q t acc, UnpackedFloat.sqrtCore Float.Model.Format.binary64 m e = (q, t, acc) ∧
      ∃ r, Stands (UnpackedFloat.roundWithAccuracy Float.Model.Format.binary64 .positive q t acc) r ∧
        Near (√(m * 2 ^ e)) r := by
  obtain ⟨t, htarget⟩ : ∃ t : ℤ, t = min (e.ediv 2)
      (max ((m.log2 + 1 + e + 1 : ℤ).ediv 2 - 53) (-1074)) := ⟨_, rfl⟩
  have ht : t = min (e / 2) (max ((m.log2 + 1 + e + 1) / 2 - 53) (-1074)) := htarget
  obtain ⟨shift, hshift⟩ : ∃ k : ℕ, k = (e - 2 * t).toNat := ⟨_, rfl⟩
  have hx : √(m * 2 ^ e : ℝ) = √(m * 2 ^ shift : ℕ) * 2 ^ t := by
    have he : (m * 2 ^ e : ℝ) = (m * 2 ^ shift : ℕ) * (2 ^ t) ^ 2 := by
      have : (2 : ℝ) ^ e = 2 ^ shift * (2 ^ t) ^ 2 := by
        rw [← zpow_natCast, ← zpow_natCast, ← zpow_mul, ← zpow_add₀ two_ne_zero]
        congr 1
        push_cast
        omega
      rw [this]
      push_cast
      ring
    rw [he, Real.sqrt_mul (Nat.cast_nonneg _), Real.sqrt_sq (two_zpow_pos t).le]
  refine ⟨(m * 2 ^ shift).sqrt, t, sqrtAccuracy (m * 2 ^ shift), ?_, ?_⟩
  · show (_, _, _) = _
    rw [targetExponent_eq, Float.Model.totalExponent, ← htarget, ← hshift, Nat.shiftLeft_eq]
    rfl
  · rw [hx]
    refine stands_roundWithAccuracy (truncates_sqrt _ t) ?_ .positive
    by_cases hleast : t ≤ -1074
    · exact .inr hleast
    · refine .inl (Nat.le_sqrt.mpr ?_)
      calc 2 ^ 52 * 2 ^ 52 ≤ 2 ^ (m.log2 + shift) := by
            rw [← pow_add]
            exact Nat.pow_le_pow_right two_pos (by omega)
        _ ≤ m * 2 ^ shift := two_pow_log2_add_le hm shift

theorem stands_sqrt {u : UnpackedFloat} {x : ℝ} (hu : Stands u x) (hx : 0 ≤ x) :
    ∃ r, Stands (UnpackedFloat.sqrt Float.Model.Format.binary64 u) r ∧ Near (√x) r := by
  cases hu with
  | zero s =>
    rw [Real.sqrt_zero]
    exact ⟨0, .zero _, near_self 0⟩
  | @finite s m e hm h =>
    cases s with
    | negative =>
      have : (0 : ℝ) < m * 2 ^ e := mul_pos (by exact_mod_cast hm) (two_zpow_pos e)
      exact absurd hx (not_le.mpr (neg_neg_of_pos this))
    | positive =>
      obtain ⟨q, t, acc, hcore, r, hr, hnear⟩ := stands_sqrtCore hm.ne' e
      refine ⟨r, ?_, hnear⟩
      simpa only [UnpackedFloat.sqrt, hcore] using hr

end Rounding
end NetImage
