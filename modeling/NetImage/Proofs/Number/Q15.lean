import Mathlib
import NetImage.Number.Q15
import NetImage.Proofs.Number.Order

/-!
# NetImage.Proofs.Number.Q15

Fixed-point words and the real numbers they are made from. Clamping and rounding are those of real
numbers, and reading a word back is exact.

* `roundHalfAway`: the nearest whole number, a half going away from zero.
* `Q15.quantize_of_denotes`: the word of a finite number.
* `Q15.isBeyond_of_denotes`: the finite numbers that are beyond range.
* `Q15.denotes_dequantize`, `Q15.denotes_product`: what is exact.
-/

namespace NetImage

open Rounding

/-! ## Rounding to whole numbers -/

/-- The nearest whole number, a half going away from zero. -/
noncomputable def roundHalfAway (x : ℝ) : ℤ := if 0 ≤ x then round x else -round (-x)

section RoundHalfAway

variable {x y : ℝ}

theorem roundHalfAway_of_nonneg (h : 0 ≤ x) : roundHalfAway x = ⌊x + 1 / 2⌋ := by
  rw [roundHalfAway, if_pos h, round_eq]

theorem roundHalfAway_natCast (n : ℕ) : roundHalfAway n = n := by
  rw [roundHalfAway, if_pos n.cast_nonneg, round_natCast]

theorem roundHalfAway_neg (x : ℝ) : roundHalfAway (-x) = -roundHalfAway x := by
  rcases lt_trichotomy x 0 with h | rfl | h
  · rw [roundHalfAway, roundHalfAway, if_pos (neg_nonneg.mpr h.le), if_neg h.not_ge, neg_neg]
  · simp [roundHalfAway]
  · rw [roundHalfAway, roundHalfAway, if_neg (neg_nonneg.not.mpr h.not_ge), if_pos h.le, neg_neg]

theorem roundHalfAway_nonneg (h : 0 ≤ x) : 0 ≤ roundHalfAway x := by
  rw [roundHalfAway_of_nonneg h, Int.floor_nonneg]
  positivity

theorem monotone_roundHalfAway : Monotone roundHalfAway := by
  have hnonneg : ∀ {x y : ℝ}, 0 ≤ x → x ≤ y → roundHalfAway x ≤ roundHalfAway y := by
    intro x y hx h
    rw [roundHalfAway_of_nonneg hx, roundHalfAway_of_nonneg (hx.trans h)]
    exact Int.floor_mono (by linarith)
  intro x y h
  rcases le_total 0 x with hx | hx
  · exact hnonneg hx h
  · have hnegative := roundHalfAway_nonneg (neg_nonneg.mpr hx)
    rw [roundHalfAway_neg] at hnegative
    rcases le_total 0 y with hy | hy
    · linarith [roundHalfAway_nonneg hy]
    · have hmirror := hnonneg (neg_nonneg.mpr hy) (neg_le_neg h)
      rw [roundHalfAway_neg, roundHalfAway_neg] at hmirror
      linarith

theorem abs_sub_roundHalfAway_le (x : ℝ) : |x - roundHalfAway x| ≤ 1 / 2 := by
  by_cases h : 0 ≤ x
  · rw [roundHalfAway, if_pos h]
    exact abs_sub_round x
  · have hmirror := abs_sub_round (-x)
    rw [roundHalfAway, if_neg h, ← abs_neg, Int.cast_neg]
    rwa [show -(x - -(round (-x) : ℝ)) = -x - round (-x) by ring]

end RoundHalfAway

namespace Q15

/-! ## Steps -/

theorem shift_eq (e : ℤ) :
    (2 : ℝ) ^ (e + 15).toNat = 2 ^ e * 32768 * 2 ^ (-(e + 15)).toNat := by
  have hsplit : (2 : ℝ) ^ (((e + 15).toNat : ℤ)) = 2 ^ (e + 15 + ((-(e + 15)).toNat : ℤ)) := by
    congr 1
    omega
  rw [zpow_add₀ two_ne_zero, zpow_add₀ two_ne_zero, zpow_natCast, zpow_natCast] at hsplit
  rw [hsplit]
  norm_num

theorem steps_eq (s : ℕ) (e : ℤ) : (steps s e : ℤ) = roundHalfAway (s * 2 ^ e * 32768) := by
  have hnonneg : (0 : ℝ) ≤ s * 2 ^ e * 32768 := by positivity
  -- half of the denominator in the numerator is the half that is added before rounding down
  have hquotient : (s * 2 ^ e * 32768 + 1 / 2 : ℝ) =
      (2 * (s * 2 ^ (e + 15).toNat) + 2 ^ (-(e + 15)).toNat : ℕ) /
        (2 * 2 ^ (-(e + 15)).toNat : ℕ) := by
    push_cast
    rw [shift_eq, eq_div_iff (by positivity)]
    ring
  rw [roundHalfAway_of_nonneg hnonneg, hquotient, ← Int.natCast_floor_eq_floor (by positivity),
    Nat.floor_div_eq_div]
  simp only [steps, Nat.shiftLeft_eq, one_mul]

theorem compareSteps_eq (s : ℕ) (e : ℤ) (n : ℕ) :
    compareSteps s e n = cmp (s * 2 ^ e * 32768 : ℝ) n := by
  have hpos : (0 : ℝ) < 2 ^ (-(e + 15)).toNat := by positivity
  have hleft : (s * 2 ^ e * 32768 * 2 ^ (-(e + 15)).toNat : ℝ) = (s * 2 ^ (e + 15).toNat : ℕ) := by
    push_cast
    rw [shift_eq]
    ring
  have hright : (n * 2 ^ (-(e + 15)).toNat : ℝ) = (n * 2 ^ (-(e + 15)).toNat : ℕ) := by push_cast; rfl
  rw [← cmp_mul_pos_right hpos, hleft, hright, Nat.strictMono_cast.cmp_map_eq, cmp_eq_compare]
  simp only [compareSteps, Nat.shiftLeft_eq]

/-! ## Words of numbers -/

section Words

variable {x : Float} {r m : ℝ}

theorem clamp_of_nonneg (h : 0 ≤ m) :
    min (max m (-1)) (32767 / 32768) * 32768 = min (m * 32768) (32767 : ℕ) := by
  rw [max_eq_left (by linarith), min_mul_of_nonneg _ _ (by norm_num)]
  norm_num

theorem clamp_neg (h : 0 ≤ m) :
    min (max (-m) (-1)) (32767 / 32768) * 32768 = -min (m * 32768) (32768 : ℕ) := by
  have hbelow : -min m 1 ≤ 32767 / 32768 := by linarith [le_min h zero_le_one]
  rw [max_neg_neg, min_eq_left hbelow, neg_mul, min_mul_of_nonneg _ _ (by norm_num)]
  norm_num

/-- A finite number is clamped and rounded. -/
theorem quantize_of_denotes (h : Denotes x r) :
    quantize x = roundHalfAway (min (max r (-1)) (32767 / 32768) * 32768) := by
  obtain ⟨negative, s, e, hx, rfl⟩ := h
  have hnonneg : (0 : ℝ) ≤ s * 2 ^ e := by positivity
  rw [quantize, hx]
  cases negative with
  | true =>
    rw [if_pos rfl, neg_one_mul, clamp_neg hnonneg, roundHalfAway_neg,
      monotone_roundHalfAway.map_min, roundHalfAway_natCast, ← steps_eq, ← Nat.cast_min]
    rfl
  | false =>
    rw [if_neg Bool.false_ne_true, one_mul, clamp_of_nonneg hnonneg,
      monotone_roundHalfAway.map_min, roundHalfAway_natCast, ← steps_eq, ← Nat.cast_min]
    rfl

/-- A finite number is beyond range below the lower end, and from the upper end on except for one. -/
theorem isBeyond_of_denotes (h : Denotes x r) :
    isBeyondQ15 x = true ↔ (r < -1 ∨ 32767 / 32768 ≤ r) ∧ r ≠ 1 := by
  obtain ⟨negative, s, e, hx, rfl⟩ := h
  have hnonneg : (0 : ℝ) ≤ s * 2 ^ e := by positivity
  rw [isBeyondQ15, hx]
  generalize hm : (s * 2 ^ e : ℝ) = m at hnonneg
  cases negative with
  | true =>
    simp only [isBeyond, compareSteps_eq, hm, beq_iff_eq, cmp_eq_gt_iff, if_true]
    constructor
    · intro hlarge
      exact ⟨.inl (by norm_num at hlarge; linarith), by linarith⟩
    · rintro ⟨hlow | hhigh, -⟩
      · norm_num
        linarith
      · linarith
  | false =>
    simp only [isBeyond, compareSteps_eq, hm, Bool.and_eq_true, bne_iff_ne, ne_eq, cmp_eq_lt_iff,
      cmp_eq_eq_iff, Bool.false_eq_true, if_false, one, not_lt, one_mul]
    have hone : m * 32768 = (32768 : ℕ) ↔ m = 1 := by
      constructor <;> intro heq <;> norm_num at heq ⊢ <;> linarith
    have hupper : ((32767 : ℕ) : ℝ) ≤ m * 32768 ↔ 32767 / 32768 ≤ m := by
      norm_num [div_le_iff₀]
    rw [hone, hupper, or_iff_right (by linarith)]

end Words

/-! ## What is exact -/

theorem denotes_32768 : Denotes 32768.0 32768 := ⟨false, 2 ^ 52, -37, rfl, by norm_num⟩

theorem denotes_lower : Denotes lower (-1) := ⟨true, 2 ^ 52, -52, by decide, by norm_num⟩

theorem denotes_upper : Denotes upper (32767 / 32768) :=
  ⟨false, 32767 * 2 ^ 38, -53, by decide, by norm_num⟩

theorem grid_mul_32768 {b : ℝ} (h : Grid b) : Grid (b * 32768) := by
  obtain ⟨k, j, hk, hj, rfl⟩ := h
  refine ⟨k, j + 15, hk, by omega, ?_⟩
  rw [zpow_add₀ two_ne_zero, ← mul_assoc]
  norm_num

/-- Nothing is lost where a number of the range is counted in steps. -/
theorem denotes_product {x : Float} {r : ℝ} (h : Denotes x r) (hr : |r| ≤ 1) :
    Denotes (x * 32768.0) (r * 32768) := by
  have hrange : InRange (r * 32768) := by
    refine inRange_of_le (j := 15) (by norm_num) (by norm_num) ?_
    rw [abs_mul]
    norm_num
    linarith
  -- only the exponent grows, so there is nothing to round
  obtain ⟨p, hp, hnear⟩ := denotes_mul h denotes_32768 hrange
  obtain rfl := hnear.eq_of_grid (grid_mul_32768 h.grid)
  exact hp

theorem inRange_steps {n : ℕ} (h : n ≤ 32768) : InRange (n / 32768) := by
  have hle : (n : ℝ) ≤ 32768 := by exact_mod_cast h
  refine inRange_of_abs_le_two ?_
  rw [abs_of_nonneg (by positivity), div_le_iff₀ (by norm_num)]
  linarith

theorem denotes_steps {n : ℕ} (h : n ≤ 32768) :
    Denotes ((UInt64.ofNat n).toFloat / 32768.0) (n / 32768) := by
  have hdigits : |(n : ℤ)| < 2 ^ 53 := by
    rw [Nat.abs_cast]
    omega
  have hcast : (UInt64.ofNat n).toNat = n := by
    rw [UInt64.toNat_ofNat', Nat.mod_eq_of_lt (by omega)]
  obtain ⟨a, ha, hnear⟩ := denotes_toFloat (UInt64.ofNat n)
  rw [hcast] at hnear
  obtain rfl := hnear.eq_of_grid (by exact_mod_cast grid_intCast hdigits)
  obtain ⟨b, hb, hnear'⟩ := denotes_div ha denotes_32768 (by norm_num) (inRange_steps h)
  obtain rfl := hnear'.eq_of_grid ⟨n, -15, hdigits, by norm_num, by norm_num [div_eq_mul_inv]⟩
  exact hb

/-- A word is read back as its count of steps. -/
theorem denotes_dequantize (q : Int16) : Denotes (dequantize q) (q.toInt / 32768) := by
  have hlow := q.le_toInt
  have hhigh := q.toInt_lt
  have hmagnitude : q.toInt.natAbs ≤ 32768 := by omega
  have hsteps := denotes_steps hmagnitude
  have hcast : (q.toInt.natAbs : ℝ) = (|q.toInt| : ℤ) := Nat.cast_natAbs q.toInt
  rw [dequantize]
  by_cases hneg : q < 0
  · have hsign : q.toInt < 0 := by simpa using Int16.lt_iff_toInt_lt.mp hneg
    have hdenotes := denotes_neg hsteps (inRange_steps hmagnitude)
    rw [hcast, abs_of_neg hsign, Int.cast_neg, neg_div, neg_neg] at hdenotes
    rwa [if_pos hneg]
  · have hsign : 0 ≤ q.toInt := by simpa using mt Int16.lt_iff_toInt_lt.mpr hneg
    rw [hcast, abs_of_nonneg hsign] at hsteps
    rwa [if_neg hneg]

end Q15
end NetImage
