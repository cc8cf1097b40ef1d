import Mathlib
import NetImage.Number.Binary

/-!
# NetImage.Proofs.Number.Rounding

Rounding to 53 digits keeps the order. A number that is rounded does not pass any number that 53
digits hold, so bounds that are such numbers go through every operation.

* `Rounding.Grid`, `Rounding.Near`: the numbers of 53 digits, and a number that none of them parts from
  another.
* `Rounding.Denotes`: a number of 64 bits and the real number it stands for.
* `Rounding.Truncates`: the digits kept while low digits are dropped.
* `Rounding.Stands`: a word taken apart stands for a real number.
* `Rounding.stands_roundWithAccuracy`: what rounding gives.
-/

namespace NetImage
namespace Rounding

open Float.Model (UnpackedFloat)
open Float.Model.UnpackedFloat (ExtendedMantissa Accuracy Sign)

/-- A whole number of at most 53 binary digits times a power of two that is not too small. -/
def Grid (b : ℝ) : Prop :=
  ∃ k j : ℤ, |k| < 2 ^ 53 ∧ -1074 ≤ j ∧ b = k * 2 ^ j

/-- No number of the grid lies strictly between the two, and none that one of them is is passed by the
other. -/
def Near (x v : ℝ) : Prop :=
  ∀ b, Grid b → (x ≤ b → v ≤ b) ∧ (b ≤ x → b ≤ v)

/-- The real number that a number of 64 bits stands for. -/
def Denotes (x : Float) (r : ℝ) : Prop :=
  ∃ negative significand exponent, valueOf64 x = .finite negative significand exponent ∧
    r = (if negative then -1 else 1) * (significand * 2 ^ exponent)

/-- The number is within a bound of 53 digits that a word holds. -/
def InRange (x : ℝ) : Prop := ∃ c, Grid c ∧ |x| ≤ c ∧ c < 2 ^ (1024 : ℤ)

/-- The least number that is not finite when it is rounded to 32 bits: half a place above the largest
finite one. -/
noncomputable def overflow32 : ℝ := (2 ^ 25 - 1) * 2 ^ (103 : ℤ)

theorem Grid.neg {b : ℝ} (h : Grid b) : Grid (-b) := by
  obtain ⟨k, j, hk, hj, rfl⟩ := h
  exact ⟨-k, j, by rwa [abs_neg], hj, by push_cast; ring⟩

theorem Grid.abs {b : ℝ} (h : Grid b) : Grid |b| := by
  rcases abs_choice b with hb | hb
  · rwa [hb]
  · rw [hb]
    exact h.neg

theorem grid_intCast {k : ℤ} (h : |k| < 2 ^ 53) : Grid k :=
  ⟨k, 0, h, by norm_num, by simp⟩

theorem grid_two_zpow {j : ℤ} (h : -1074 ≤ j) : Grid (2 ^ j) :=
  ⟨1, j, by norm_num, h, by simp⟩

theorem Near.neg {x v : ℝ} (h : Near x v) : Near (-x) (-v) := by
  intro b hb
  obtain ⟨hupper, hlower⟩ := h (-b) hb.neg
  exact ⟨fun hx => neg_le.mp (hlower (neg_le.mp hx)), fun hx => le_neg.mp (hupper (le_neg.mp hx))⟩

/-! ## Dropping digits -/

/-- The digits kept of `x`; the two bits beside them are set only if something was dropped. -/
structure Truncates (em : ExtendedMantissa) (e : ℤ) (x : ℝ) : Prop where
  lower : em.mantissa * 2 ^ e ≤ x
  upper : x < (em.mantissa + 1) * 2 ^ e
  strict : em.roundBit = true ∨ em.stickyBit = true → em.mantissa * 2 ^ e < x

theorem two_zpow_pos (e : ℤ) : (0 : ℝ) < 2 ^ e := zpow_pos two_pos e

theorem Truncates.shiftRightOne {em : ExtendedMantissa} {e : ℤ} {x : ℝ} (h : Truncates em e x) :
    Truncates em.shiftRightOne (e + 1) x := by
  obtain ⟨hlower, hupper, hstrict⟩ := h
  have he := two_zpow_pos e
  have hdigit : (em.mantissa : ℝ) = 2 * (em.mantissa / 2 : ℕ) + (em.mantissa % 2 : ℕ) := by
    exact_mod_cast (Nat.div_add_mod em.mantissa 2).symm
  have hbit : ((em.mantissa % 2 : ℕ) : ℝ) ≤ 1 := by
    exact_mod_cast Nat.le_of_lt_succ (Nat.mod_lt _ two_pos)
  have hbit₀ : (0 : ℝ) ≤ (em.mantissa % 2 : ℕ) := Nat.cast_nonneg _
  refine ⟨?_, ?_, ?_⟩
  · show ((em.mantissa / 2 : ℕ) : ℝ) * 2 ^ (e + 1) ≤ x
    rw [zpow_add_one₀ two_ne_zero]
    nlinarith
  · show x < ((em.mantissa / 2 : ℕ) + 1) * 2 ^ (e + 1)
    rw [zpow_add_one₀ two_ne_zero]
    nlinarith
  · show (em.mantissa % 2 != 0) = true ∨ (em.roundBit || em.stickyBit) = true →
      ((em.mantissa / 2 : ℕ) : ℝ) * 2 ^ (e + 1) < x
    rw [zpow_add_one₀ two_ne_zero]
    rintro (hodd | hbits)
    · have hone : ((em.mantissa % 2 : ℕ) : ℝ) = 1 := by
        have : em.mantissa % 2 ≠ 0 := by simpa using hodd
        exact_mod_cast (by omega : em.mantissa % 2 = 1)
      nlinarith
    · have := hstrict (by simpa using hbits)
      nlinarith

theorem Truncates.shiftRight {em : ExtendedMantissa} {e : ℤ} {x : ℝ} (h : Truncates em e x)
    (n : ℕ) : Truncates (em >>> n) (e + n) x := by
  show Truncates (n.repeat ExtendedMantissa.shiftRightOne em) (e + n) x
  induction n with
  | zero => simpa [Nat.repeat] using h
  | succ n ih =>
    rw [Nat.repeat]
    simpa [add_assoc] using ih.shiftRightOne

theorem mantissa_shiftRight (em : ExtendedMantissa) (n : ℕ) :
    (em >>> n).mantissa = em.mantissa / 2 ^ n := by
  show (n.repeat ExtendedMantissa.shiftRightOne em).mantissa = _
  induction n with
  | zero => simp [Nat.repeat]
  | succ n ih =>
    rw [Nat.repeat, ExtendedMantissa.shiftRightOne, ih, Nat.div_div_eq_div_mul, pow_succ]

/-- Rounding leaves the digits kept, or adds one in the last place if something was dropped. -/
theorem Truncates.roundedMantissa {em : ExtendedMantissa} {e : ℤ} {x : ℝ} (h : Truncates em e x) :
    em.roundedMantissa = em.mantissa ∨
      em.roundedMantissa = em.mantissa + 1 ∧ em.mantissa * 2 ^ e < x := by
  obtain ⟨m, round, sticky⟩ := em
  cases round with
  | false => cases sticky <;> exact .inl rfl
  | true =>
    have hx := h.strict (.inl rfl)
    cases sticky with
    | true => exact .inr ⟨rfl, hx⟩
    | false =>
      rcases Nat.mod_two_eq_zero_or_one m with hm | hm
      · exact .inl (show m + m % 2 = m by rw [hm, add_zero])
      · exact .inr ⟨show m + m % 2 = m + 1 by rw [hm], hx⟩

/-! ## Rounding -/

/-- A significand of at most 53 digits, and of less only with the least exponent. -/
structure Canonical (m : ℕ) (e : ℤ) : Prop where
  digits : m < 2 ^ 53
  least : -1074 ≤ e
  normal : 2 ^ 52 ≤ m ∨ e = -1074

theorem Canonical.grid {m : ℕ} {e : ℤ} (h : Canonical m e) : Grid (m * 2 ^ e) :=
  ⟨m, e, by rw [Nat.abs_cast]; exact_mod_cast h.digits, h.least, by simp⟩

/-- A number of the grid in units of the last place, or so small that it has no such form. -/
theorem Canonical.grid_cases {m : ℕ} {e : ℤ} (h : Canonical m e) {b : ℝ} (hb : Grid b) :
    (∃ k : ℤ, b = k * 2 ^ e) ∨ b < m * 2 ^ e := by
  obtain ⟨k, j, hk, hj, rfl⟩ := hb
  rcases le_or_gt e j with hej | hej
  · refine .inl ⟨k * 2 ^ (j - e).toNat, ?_⟩
    push_cast
    rw [mul_assoc, ← zpow_natCast, ← zpow_add₀ two_ne_zero, Int.toNat_of_nonneg (by omega),
      sub_add_cancel]
  · -- the exponent is not the least one, so that all digits are there
    have hm : (2 : ℝ) ^ 52 ≤ m := by exact_mod_cast h.normal.resolve_right (by omega)
    have hk' : (k : ℝ) < 2 ^ 53 := by exact_mod_cast (abs_lt.mp hk).2
    have hj' : (2 : ℝ) ^ j * 2 ≤ 2 ^ e := by
      rw [← zpow_add_one₀ two_ne_zero]
      exact zpow_le_zpow_right₀ one_le_two (by omega)
    have := two_zpow_pos j
    refine .inr ?_
    calc (k : ℝ) * 2 ^ j < 2 ^ 53 * 2 ^ j := by gcongr
      _ = 2 ^ 52 * (2 ^ j * 2) := by ring
      _ ≤ m * 2 ^ e := by gcongr

theorem Truncates.near {em : ExtendedMantissa} {e : ℤ} {x : ℝ} (h : Truncates em e x)
    (hem : Canonical em.mantissa e) : Near x (em.roundedMantissa * 2 ^ e) := by
  have he := two_zpow_pos e
  have hle : (em.mantissa : ℝ) * 2 ^ e ≤ em.roundedMantissa * 2 ^ e := by
    have : em.mantissa ≤ em.roundedMantissa := by
      rcases h.roundedMantissa with hm | ⟨hm, -⟩ <;> omega
    gcongr
  intro b hb
  rcases hem.grid_cases hb with ⟨k, rfl⟩ | hsmall
  · constructor
    · intro hx
      suffices (em.roundedMantissa : ℤ) ≤ k by
        have : (em.roundedMantissa : ℝ) ≤ k := by exact_mod_cast this
        gcongr
      rcases h.roundedMantissa with hm | ⟨hm, hstrict⟩
      · have : (em.mantissa : ℝ) ≤ k := le_of_mul_le_mul_right (h.lower.trans hx) he
        rw [hm]
        exact_mod_cast this
      · have : (em.mantissa : ℝ) < k := lt_of_mul_lt_mul_right (hstrict.trans_le hx) he.le
        have : (em.mantissa : ℤ) < k := by exact_mod_cast this
        omega
    · intro hx
      refine le_trans ?_ hle
      have : (k : ℝ) < em.mantissa + 1 := lt_of_mul_lt_mul_right (hx.trans_lt h.upper) he.le
      have : k < em.mantissa + 1 := by exact_mod_cast this
      have : (k : ℝ) ≤ em.mantissa := by exact_mod_cast Int.le_of_lt_add_one this
      gcongr
  · exact ⟨fun hx => absurd (h.lower.trans hx) hsmall.not_ge, fun _ => hsmall.le.trans hle⟩

theorem targetExponent_eq (total : ℤ) :
    Float.Model.Format.binary64.targetExponent total = max (total - 53) (-1074) := rfl

theorem mantissa_ofMantissaAndAccuracy (m : ℕ) (acc : Accuracy) :
    (ExtendedMantissa.ofMantissaAndAccuracy m acc).mantissa = m := by
  rcases acc with _ | ⟨_ | _ | _⟩ <;> rfl

/-- Low digits are dropped until the rest has the form of a word. No digit is ever added, so that there
have to be enough of them. -/
theorem Truncates.shiftToTargetExponent {m : ℕ} {e : ℤ} {acc : Accuracy} {x : ℝ}
    (h : Truncates (.ofMantissaAndAccuracy m acc) e x) (henough : 2 ^ 52 ≤ m ∨ e ≤ -1074) :
    ∃ em t, UnpackedFloat.shiftToTargetExponent Float.Model.Format.binary64 m e acc = (em, t) ∧
      Canonical em.mantissa t ∧ Truncates em t x := by
  have hdigits : 52 ≤ m.log2 ∨ e ≤ -1074 := by
    refine henough.imp_left fun hm => ?_
    exact (Nat.le_log2 (by omega)).mpr hm
  obtain ⟨t, ht⟩ : ∃ t : ℤ, t = max (m.log2 + 1 + e - 53) (-1074) := ⟨_, rfl⟩
  obtain ⟨n, hn⟩ : ∃ n : ℕ, n = (t - e).toNat := ⟨_, rfl⟩
  clear henough
  have hte : e + n = t := by omega
  have hdropped : m.log2 + 1 ≤ n + 53 := by omega
  have hkept : t ≠ -1074 → 52 + n = m.log2 := by omega
  refine ⟨ExtendedMantissa.ofMantissaAndAccuracy m acc >>> n, t, ?_, ?_, ?_⟩
  · show (_, _) = _
    rw [targetExponent_eq, Float.Model.totalExponent, ← ht, ← hn, hte]
  · rw [mantissa_shiftRight, mantissa_ofMantissaAndAccuracy]
    refine ⟨?_, by omega, ?_⟩
    · refine Nat.div_lt_of_lt_mul ?_
      rw [← pow_add]
      exact Nat.lt_log2_self.trans_le (Nat.pow_le_pow_right two_pos hdropped)
    · by_cases hleast : t = -1074
      · exact .inr hleast
      · refine .inl ((Nat.le_div_iff_mul_le (by positivity)).mpr ?_)
        have hm : m ≠ 0 := by
          rintro rfl
          have := hkept hleast
          simp at this
        rw [← pow_add, hkept hleast]
        exact Nat.log2_self_le hm
  · rw [← hte]
    exact h.shiftRight n

/-- One more place is dropped if rounding has carried into it. -/
theorem shiftToTargetExponent_exact {m : ℕ} {e : ℤ} (hm : m ≤ 2 ^ 53) (he : -1074 ≤ e)
    (henough : 2 ^ 52 ≤ m ∨ e = -1074) :
    ∃ em t, UnpackedFloat.shiftToTargetExponent Float.Model.Format.binary64 m e .exact = (em, t) ∧
      Canonical em.mantissa t ∧ (em.mantissa * 2 ^ t : ℝ) = m * 2 ^ e := by
  rcases hm.lt_or_eq with hlt | rfl
  · have hlog : m.log2 < 53 := by
      by_cases hzero : m = 0
      · subst hzero
        decide
      · exact (Nat.log2_lt hzero).mpr hlt
    refine ⟨⟨m, false, false⟩, e, ?_, ⟨hlt, he, henough⟩, rfl⟩
    have hno : (max (m.log2 + 1 + e - 53 : ℤ) (-1074) - e).toNat = 0 := by omega
    show (_, _) = _
    rw [targetExponent_eq, Float.Model.totalExponent, hno]
    simp [HShiftRight.hShiftRight, Nat.repeat, ExtendedMantissa.ofMantissaAndAccuracy]
  · refine ⟨⟨2 ^ 52, false, false⟩, e + 1, ?_, ⟨by norm_num, by omega, .inl le_rfl⟩, ?_⟩
    · have hlog : (2 ^ 53 : ℕ).log2 = 53 := Nat.log2_two_pow
      have hone : (max ((2 ^ 53 : ℕ).log2 + 1 + e - 53 : ℤ) (-1074) - e).toNat = 1 := by omega
      show (_, _) = _
      rw [targetExponent_eq, Float.Model.totalExponent, hone]
      rfl
    · push_cast
      rw [zpow_add_one₀ two_ne_zero]
      ring

/-- The number with a sign. -/
def signed (s : Sign) (x : ℝ) : ℝ :=
  match s with
  | .negative => -x
  | .positive => x

/-- The real number of a word that is taken apart. Infinities and what is no number have none. -/
inductive Stands : UnpackedFloat → ℝ → Prop
  | zero (s : Sign) : Stands (.zero s) 0
  | finite {s : Sign} {m : ℕ} {e : ℤ} {hm : 0 < m} (h : Canonical m e) :
      Stands (.finite s m e hm) (signed s (m * 2 ^ e))

theorem grid_signed {x : ℝ} (h : Grid x) (s : Sign) : Grid (signed s x) := by
  cases s with
  | negative => exact h.neg
  | positive => exact h

theorem near_signed {x v : ℝ} (h : Near x v) (s : Sign) : Near (signed s x) (signed s v) := by
  cases s with
  | negative => exact h.neg
  | positive => exact h

theorem Stands.grid {u : UnpackedFloat} {r : ℝ} (h : Stands u r) : Grid r := by
  cases h with
  | zero => exact_mod_cast grid_intCast (k := 0) (by norm_num)
  | finite h => exact grid_signed h.grid _

/-- What is rounded stands for a number near to the one that was meant. -/
theorem stands_roundWithAccuracy {m : ℕ} {e : ℤ} {acc : Accuracy} {x : ℝ}
    (h : Truncates (.ofMantissaAndAccuracy m acc) e x) (henough : 2 ^ 52 ≤ m ∨ e ≤ -1074) (s : Sign) :
    ∃ r, Stands (UnpackedFloat.roundWithAccuracy Float.Model.Format.binary64 s m e acc) r ∧
      Near (signed s x) r := by
  obtain ⟨em, t, hfirst, hcanonical, htruncates⟩ := h.shiftToTargetExponent henough
  have hrounded : em.mantissa ≤ em.roundedMantissa ∧ em.roundedMantissa ≤ em.mantissa + 1 := by
    rcases htruncates.roundedMantissa with hm | ⟨hm, -⟩ <;> omega
  obtain ⟨hdigits, hleast, hnormal⟩ := hcanonical
  obtain ⟨em', t', hsecond, hcanonical', hvalue⟩ := shiftToTargetExponent_exact
    (m := em.roundedMantissa) (by omega) hleast (hnormal.imp_left fun hm => hm.trans hrounded.1)
  have hnear := near_signed (htruncates.near ⟨hdigits, hleast, hnormal⟩) s
  rw [← hvalue] at hnear
  refine ⟨_, ?_, hnear⟩
  simp only [UnpackedFloat.roundWithAccuracy, hfirst, hsecond]
  split
  · rename_i hzero
    rw [hzero, Nat.cast_zero, zero_mul, show signed s 0 = 0 by cases s <;> simp [signed]]
    exact .zero s
  · exact .finite hcanonical'

end Rounding
end NetImage
