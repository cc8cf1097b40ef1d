import Mathlib
import NetImage.Proofs.Number.Arithmetic

/-!
# NetImage.Proofs.Number.Denotation

The real numbers that numbers of 64 bits stand for. An operation on numbers gives a number near to the
exact result, provided that this does not overflow.

* `Rounding.exists_components`: a word taken apart both ways.
* `Rounding.denotes_iff`: a number stands for what its word, taken apart, stands for.
* `Rounding.denotes_neg`, `denotes_mul`, `denotes_sub`, `denotes_div`, `denotes_sqrt`, `denotes_toFloat`:
  the operations.
-/

namespace NetImage
namespace Rounding

open Float.Model (UnpackedFloat)
open Float.Model.UnpackedFloat (ExtendedMantissa Accuracy Sign)

theorem abs_signed {x : ℝ} (h : 0 ≤ x) (s : Sign) : |signed s x| = x := by
  cases s with
  | negative => exact (abs_neg x).trans (abs_of_nonneg h)
  | positive => exact abs_of_nonneg h

theorem Canonical.exponent_le {m : ℕ} {e : ℤ} (h : Canonical m e)
    (hm : (m * 2 ^ e : ℝ) < 2 ^ (1024 : ℤ)) : e ≤ 971 := by
  by_contra hlarge
  have hdigits : (2 : ℝ) ^ (52 : ℤ) ≤ m := by exact_mod_cast h.normal.resolve_right (by omega)
  have hpow : (2 : ℝ) ^ (972 : ℤ) ≤ 2 ^ e := zpow_le_zpow_right₀ one_le_two (by omega)
  have : (2 : ℝ) ^ (1024 : ℤ) ≤ m * 2 ^ e := by
    calc (2 : ℝ) ^ (1024 : ℤ) = 2 ^ (52 : ℤ) * 2 ^ (972 : ℤ) := by
          rw [← zpow_add₀ two_ne_zero]
          norm_num
      _ ≤ m * 2 ^ e := by gcongr
  exact absurd hm this.not_gt

/-! ## Words -/

section Words

variable (s : Sign) {m : ℕ} {e : ℤ} (hm : 0 < m)

theorem unpack_normal {E : BitVec 11} (M : BitVec 52) (hinfinite : E ≠ -1#11) (hzero : E ≠ 0#11)
    (hmantissa : 2 ^ 52 + M.toNat = m) (hexponent : (E.toNat : ℤ) - 1075 = e) :
    UnpackedFloat.unpack Float.Model.Format.binary64
      (UnpackedFloat.packComponents Float.Model.Format.binary64 s E M) = .finite s m e hm := by
  have happend : (1#1 ++ M).toNat = m := by
    rw [BitVec.toNat_append, ← Nat.shiftLeft_add_eq_or_of_lt M.isLt, Nat.shiftLeft_eq, ← hmantissa]
    simp
  simp only [UnpackedFloat.unpack, UnpackedFloat.unpackMantissa_packComponents,
      UnpackedFloat.unpackExponent_packComponents, UnpackedFloat.unpackSign_packComponents,
      Sign.ofBitVec_toBitVec]
  rw [if_neg hinfinite, if_neg hzero]
  congr 1

theorem unpack_subnormal (M : BitVec 52) (hmantissa : M.toNat = m) :
    UnpackedFloat.unpack Float.Model.Format.binary64
      (UnpackedFloat.packComponents Float.Model.Format.binary64 s 0#11 M) =
        .finite s m (-1074) hm := by
  have hne : M ≠ 0#52 := by
    rintro rfl
    simp at hmantissa
    omega
  simp only [UnpackedFloat.unpack, UnpackedFloat.unpackMantissa_packComponents,
      UnpackedFloat.unpackExponent_packComponents, UnpackedFloat.unpackSign_packComponents,
      Sign.ofBitVec_toBitVec]
  rw [if_neg (by decide), if_pos trivial, dif_neg hne]
  congr 1

theorem pack_finite :
    UnpackedFloat.pack Float.Model.Format.binary64 (.finite s m e hm) =
      if 2 ^ 11 ≤ (e + (1023 : ℕ) + (52 : ℕ)).toNat + 1 then
        UnpackedFloat.packedInfinity Float.Model.Format.binary64 s
      else if m.log2 + 1 = 53 then
        UnpackedFloat.packComponents Float.Model.Format.binary64 s
          (BitVec.ofNat 11 (e + (1023 : ℕ) + (52 : ℕ)).toNat) (BitVec.ofNat 52 m)
      else UnpackedFloat.packComponents Float.Model.Format.binary64 s 0#11 (BitVec.ofNat 52 m) :=
  rfl

/-- A word that is put together is taken apart again, unless it is too large. -/
theorem Canonical.unpack_pack (h : Canonical m e) (he : e ≤ 971) :
    UnpackedFloat.unpack Float.Model.Format.binary64
      (UnpackedFloat.pack Float.Model.Format.binary64 (.finite s m e hm)) = .finite s m e hm := by
  obtain ⟨hdigits, hleast, hnormal⟩ := h
  obtain ⟨biased, hbiased⟩ : ∃ n : ℕ, n = (e + (1023 : ℕ) + (52 : ℕ)).toNat := ⟨_, rfl⟩
  have hbounds : 0 < biased ∧ biased < 2047 ∧ (biased : ℤ) - 1075 = e := by
    clear hdigits hnormal
    omega
  have hexponent : (BitVec.ofNat 11 biased).toNat = biased := by
    rw [BitVec.toNat_ofNat, Nat.mod_eq_of_lt (hbounds.2.1.trans (by norm_num))]
  rw [pack_finite, ← hbiased, if_neg (by omega)]
  by_cases hfull : 2 ^ 52 ≤ m
  · have hlog : m.log2 + 1 = 53 := by
      have := (Nat.le_log2 hm.ne').mpr hfull
      have := (Nat.log2_lt hm.ne').mpr hdigits
      omega
    rw [if_pos hlog]
    refine unpack_normal s hm _ ?_ ?_ ?_ ?_
    · intro heq
      have := congrArg BitVec.toNat heq
      rw [hexponent, show (-1#11).toNat = 2047 from rfl] at this
      omega
    · intro heq
      have := congrArg BitVec.toNat heq
      rw [hexponent, BitVec.toNat_zero] at this
      omega
    · rw [BitVec.toNat_ofNat]
      omega
    · rw [hexponent, hbounds.2.2]
  · have hlog : ¬ m.log2 + 1 = 53 := by
      have := (Nat.log2_lt hm.ne').mpr (not_le.mp hfull)
      omega
    rw [if_neg hlog, hnormal.resolve_left hfull]
    refine unpack_subnormal s hm _ ?_
    rw [BitVec.toNat_ofNat, Nat.mod_eq_of_lt (not_le.mp hfull)]

end Words

theorem Stands.unpack_pack {u : UnpackedFloat} {r : ℝ} (h : Stands u r)
    (hr : |r| < 2 ^ (1024 : ℤ)) :
    UnpackedFloat.unpack Float.Model.Format.binary64
      (UnpackedFloat.pack Float.Model.Format.binary64 u) = u := by
  cases h with
  | zero s => exact UnpackedFloat.unpack_packedZero
  | @finite s m e hm h =>
    rw [abs_signed (mul_nonneg (Nat.cast_nonneg _) (two_zpow_pos e).le)] at hr
    exact h.unpack_pack s hm (h.exponent_le hr)

/-! ## Numbers -/

theorem Denotes.unique {x : Float} {a b : ℝ} (ha : Denotes x a) (hb : Denotes x b) : a = b := by
  obtain ⟨negative, s, e, h, rfl⟩ := ha
  obtain ⟨negative', s', e', h', rfl⟩ := hb
  rw [h] at h'
  cases h'
  rfl

/-- Is this the sign of the negative numbers? -/
def isNegative : Sign → Bool
  | .negative => true
  | .positive => false

theorem signed_eq_mul (s : Sign) (x : ℝ) :
    signed s x = (if isNegative s then -1 else 1) * x := by
  cases s with
  | negative => simp [signed, isNegative]
  | positive => simp [signed, isNegative]

theorem isNegative_ofBitVec (b : BitVec 1) : isNegative (Sign.ofBitVec b) = true ↔ b = 1#1 := by
  decide +revert

theorem toNat_unpackMantissa (b : BitVec 64) :
    (@UnpackedFloat.unpackMantissa Float.Model.Format.binary64 b).toNat =
      b.toNat % 2 ^ 63 % 2 ^ 52 := by
  rw [UnpackedFloat.unpackMantissa_def, BitVec.extractLsb'_toNat]
  show b.toNat >>> 0 % 2 ^ 52 = _
  rw [Nat.shiftRight_zero]
  omega

theorem toNat_unpackExponent (b : BitVec 64) :
    (@UnpackedFloat.unpackExponent Float.Model.Format.binary64 b).toNat =
      b.toNat % 2 ^ 63 / 2 ^ 52 := by
  rw [UnpackedFloat.unpackExponent_def, BitVec.extractLsb'_toNat]
  show b.toNat >>> 52 % 2 ^ 11 = _
  rw [Nat.shiftRight_eq_div_pow]
  omega

theorem unpackSign_eq_one (b : BitVec 64) :
    @UnpackedFloat.unpackSign Float.Model.Format.binary64 b = 1#1 ↔ 2 ^ 63 ≤ b.toNat := by
  rw [UnpackedFloat.unpackSign_def, ← BitVec.toNat_inj, BitVec.extractLsb'_toNat]
  show b.toNat >>> 63 % 2 ^ 1 = 1 ↔ _
  rw [Nat.shiftRight_eq_div_pow]
  have := b.isLt
  omega

theorem unpack_word {n E M : ℕ} (hE : E < 2048) (hM : M < 2 ^ 52)
    (h : n % 2 ^ 63 = E * 2 ^ 52 + M) :
    Format.binary64.unpack n =
      if E = 2047 then if M = 0 then .infinite (2 ^ 63 ≤ n) else .nan
      else if E = 0 then .finite (2 ^ 63 ≤ n) M (-1074)
      else .finite (2 ^ 63 ≤ n) (M + 2 ^ 52) (-1074 + E - 1) := by
  have hplace : (E * 2 ^ 52 + M) / 2 ^ 52 = E := by omega
  have hfraction : (E * 2 ^ 52 + M) % 2 ^ 52 = M := by omega
  simp only [Format.unpack, show Format.binary64.signBit = 2 ^ 63 from rfl,
    show Format.binary64.hidden = 2 ^ 52 from rfl,
    show Format.binary64.infinity = 2047 * 2 ^ 52 from rfl,
    show Format.binary64.least = -1074 from rfl, h, hplace, hfraction]
  by_cases hinfinite : E = 2047
  · subst hinfinite
    by_cases hzero : M = 0
    · simp [hzero]
    · rw [if_pos (by omega), if_pos rfl, if_neg hzero]
  · rw [if_neg (by omega), if_neg (by omega), if_neg hinfinite]

theorem stands_finite_iff {s : Sign} {m : ℕ} {e : ℤ} {hm : 0 < m} {r : ℝ} (h : Canonical m e) :
    Stands (.finite s m e hm) r ↔ r = signed s (m * 2 ^ e) := by
  constructor
  · intro hr
    cases hr
    rfl
  · rintro rfl
    exact .finite h

theorem stands_zero_iff {s : Sign} {r : ℝ} : Stands (.zero s) r ↔ r = 0 := by
  constructor
  · intro hr
    cases hr
    rfl
  · rintro rfl
    exact .zero s

theorem signed_zero (s : Sign) : signed s 0 = 0 := by
  cases s with
  | negative => exact neg_zero
  | positive => rfl

theorem stands_packComponents_iff (s : Sign) (E : BitVec 11) (M : BitVec 52) (r : ℝ) :
    Stands (UnpackedFloat.unpack Float.Model.Format.binary64
      (UnpackedFloat.packComponents Float.Model.Format.binary64 s E M)) r ↔
    E ≠ -1#11 ∧ r = signed s (if E = 0#11 then M.toNat * 2 ^ (-1074 : ℤ)
      else (M.toNat + 2 ^ 52 : ℕ) * 2 ^ ((-1074 : ℤ) + E.toNat - 1)) := by
  by_cases hinfinite : E = -1#11
  · refine iff_of_false ?_ fun h => h.1 hinfinite
    simp only [UnpackedFloat.unpack, UnpackedFloat.unpackMantissa_packComponents,
      UnpackedFloat.unpackExponent_packComponents]
    rw [if_pos hinfinite]
    split <;> exact fun h => nomatch h
  · rw [and_iff_right hinfinite]
    by_cases hzero : E = 0#11
    · rw [if_pos hzero, hzero]
      by_cases hM : M = 0#52
      · rw [hM, BitVec.toNat_zero, Nat.cast_zero, zero_mul, signed_zero]
        have : UnpackedFloat.unpack Float.Model.Format.binary64
            (UnpackedFloat.packComponents Float.Model.Format.binary64 s 0#11 0#52) = .zero s :=
          UnpackedFloat.unpack_packedZero
        rw [this, stands_zero_iff]
      · have hpos : 0 < M.toNat := Nat.pos_of_ne_zero fun h => hM (BitVec.eq_of_toNat_eq h)
        have hlt := M.isLt
        rw [unpack_subnormal s hpos M rfl, stands_finite_iff ⟨by omega, le_rfl, .inr rfl⟩]
    · have hpos : 0 < E.toNat := Nat.pos_of_ne_zero fun h => hzero (BitVec.eq_of_toNat_eq h)
      have hlt := M.isLt
      have hsignificand : 0 < M.toNat + 2 ^ 52 := by omega
      rw [if_neg hzero, unpack_normal s hsignificand M hinfinite hzero (Nat.add_comm _ _)
        (show (E.toNat : ℤ) - 1075 = -1074 + E.toNat - 1 by omega),
        stands_finite_iff ⟨by omega, by omega, .inl (by omega)⟩]

/-- The same word taken apart both ways. -/
theorem exists_components (x : Float) : ∃ (s : Sign) (E : BitVec 11) (M : BitVec 52),
    x.toModel.unpack = UnpackedFloat.unpack Float.Model.Format.binary64
      (UnpackedFloat.packComponents Float.Model.Format.binary64 s E M) ∧
    valueOf64 x =
      if E.toNat = 2047 then if M.toNat = 0 then .infinite (isNegative s) else .nan
      else if E.toNat = 0 then .finite (isNegative s) M.toNat (-1074)
      else .finite (isNegative s) (M.toNat + 2 ^ 52) (-1074 + E.toNat - 1) := by
  obtain ⟨b, hb⟩ : ∃ b : BitVec 64, b = x.toModel.toBits.toBitVec := ⟨_, rfl⟩
  obtain ⟨s, hs⟩ : ∃ s, s = @UnpackedFloat.unpackSign Float.Model.Format.binary64 b := ⟨_, rfl⟩
  obtain ⟨E, hE⟩ : ∃ E, E = @UnpackedFloat.unpackExponent Float.Model.Format.binary64 b := ⟨_, rfl⟩
  obtain ⟨M, hM⟩ : ∃ M, M = @UnpackedFloat.unpackMantissa Float.Model.Format.binary64 b := ⟨_, rfl⟩
  have hword : b.toNat % 2 ^ 63 = E.toNat * 2 ^ 52 + M.toNat := by
    rw [hE, hM, toNat_unpackExponent, toNat_unpackMantissa]
    omega
  have hvalue : valueOf64 x = Format.binary64.unpack b.toNat := by rw [hb]; rfl
  have hsign : decide (2 ^ 63 ≤ b.toNat) = isNegative (Sign.ofBitVec s) := by
    rw [Bool.eq_iff_iff, decide_eq_true_iff, isNegative_ofBitVec, hs, unpackSign_eq_one]
  refine ⟨Sign.ofBitVec s, E, M, ?_, ?_⟩
  · rw [hs, hE, hM, @UnpackedFloat.packComponents_unpackSign_unpackExponent_unpackMantissa
      Float.Model.Format.binary64 b, hb]
    rfl
  · rw [hvalue, unpack_word E.isLt M.isLt hword, hsign]

theorem eq_neg_one_iff {E : BitVec 11} : E = -1#11 ↔ E.toNat = 2047 := by
  rw [← BitVec.toNat_inj]
  rfl

theorem eq_zero_iff {E : BitVec 11} : E = 0#11 ↔ E.toNat = 0 := by
  rw [← BitVec.toNat_inj]
  rfl

theorem denotes_iff {x : Float} {r : ℝ} : Denotes x r ↔ Stands x.toModel.unpack r := by
  obtain ⟨s, E, M, hunpack, hvalue⟩ := exists_components x
  rw [hunpack, stands_packComponents_iff, signed_eq_mul, Denotes, hvalue, Ne, eq_neg_one_iff]
  by_cases hinfinite : E.toNat = 2047
  · rw [if_pos hinfinite]
    split <;> simp [hinfinite]
  · rw [if_neg hinfinite]
    by_cases hzero : E.toNat = 0
    · rw [if_pos hzero, if_pos (eq_zero_iff.mpr hzero)]
      simp [hinfinite]
    · rw [if_neg hzero, if_neg (mt eq_zero_iff.mp hzero)]
      simp [hinfinite]

/-! ## Operations -/

theorem inRange_of_le {x : ℝ} {j : ℤ} (hlow : -1074 ≤ j) (hhigh : j < 1024) (h : |x| ≤ 2 ^ j) :
    InRange x :=
  ⟨2 ^ j, grid_two_zpow hlow, h, zpow_lt_zpow_right₀ one_lt_two hhigh⟩

theorem inRange_of_abs_le_two {x : ℝ} (h : |x| ≤ 2) : InRange x :=
  inRange_of_le (j := 1) (by norm_num) (by norm_num) (by simpa using h)

theorem grid_zero : Grid 0 := by exact_mod_cast grid_intCast (k := 0) (by norm_num)

theorem grid_one : Grid 1 := by exact_mod_cast grid_intCast (k := 1) (by norm_num)

theorem Near.nonneg {x v : ℝ} (h : Near x v) (hx : 0 ≤ x) : 0 ≤ v := (h 0 grid_zero).2 hx

/-- A number of the grid is not rounded. -/
theorem Near.eq_of_grid {x v : ℝ} (h : Near x v) (hx : Grid x) : v = x :=
  le_antisymm ((h x hx).1 le_rfl) ((h x hx).2 le_rfl)

theorem Near.within {x r c : ℝ} (h : Near x r) (hc : Grid c) (hx : |x| ≤ c) : |r| ≤ c := by
  obtain ⟨hlow, hhigh⟩ := abs_le.mp hx
  exact abs_le.mpr ⟨(h (-c) hc.neg).2 hlow, (h c hc).1 hhigh⟩

/-- What an operation puts together is a number near to the exact result. -/
theorem denotes_pack {u : UnpackedFloat} {x : ℝ} (h : ∃ r, Stands u r ∧ Near x r) (hx : InRange x) :
    ∃ r, Denotes (.ofModel (.pack u)) r ∧ Near x r := by
  obtain ⟨r, hu, hnear⟩ := h
  obtain ⟨c, hc, hxc, hlarge⟩ := hx
  refine ⟨r, denotes_iff.mpr ?_, hnear⟩
  show Stands (UnpackedFloat.unpack _ (UnpackedFloat.pack Float.Model.Format.binary64 u)) r
  rwa [hu.unpack_pack ((hnear.within hc hxc).trans_lt hlarge)]

section Operations

variable {x y : Float} {a b : ℝ}

theorem denotes_one : Denotes 1.0 1 := ⟨false, 2 ^ 52, -52, rfl, by norm_num⟩

theorem Denotes.grid (h : Denotes x a) : Grid a := (denotes_iff.mp h).grid

theorem denotes_neg (hx : Denotes x a) (h : InRange a) : Denotes (-x) (-a) := by
  have hneg : ∃ r, Stands x.toModel.unpack.neg r ∧ Near (-a) r :=
    ⟨-a, stands_neg (denotes_iff.mp hx), near_self _⟩
  have hrange : InRange (-a) := by
    obtain ⟨c, hc, hle, hlt⟩ := h
    exact ⟨c, hc, by rwa [abs_neg], hlt⟩
  obtain ⟨r, hr, hnear⟩ := denotes_pack hneg hrange
  obtain rfl := hnear.eq_of_grid hx.grid.neg
  exact hr

theorem denotes_mul (hx : Denotes x a) (hy : Denotes y b) (h : InRange (a * b)) :
    ∃ r, Denotes (x * y) r ∧ Near (a * b) r :=
  denotes_pack (stands_mul (denotes_iff.mp hx) (denotes_iff.mp hy)) h

theorem denotes_sub (hx : Denotes x a) (hy : Denotes y b) (h : InRange (a - b)) :
    ∃ r, Denotes (x - y) r ∧ Near (a - b) r :=
  denotes_pack (stands_sub (denotes_iff.mp hx) (denotes_iff.mp hy)) h

theorem denotes_div (hx : Denotes x a) (hy : Denotes y b) (hb : b ≠ 0) (h : InRange (a / b)) :
    ∃ r, Denotes (x / y) r ∧ Near (a / b) r :=
  denotes_pack (stands_div (denotes_iff.mp hx) (denotes_iff.mp hy) hb) h

theorem denotes_sqrt (hx : Denotes x a) (ha : 0 ≤ a) (h : InRange √a) :
    ∃ r, Denotes x.sqrt r ∧ Near √a r :=
  denotes_pack (stands_sqrt (denotes_iff.mp hx) ha) h

theorem denotes_toFloat (n : UInt64) : ∃ r, Denotes n.toFloat r ∧ Near n.toNat r := by
  refine denotes_pack (stands_ofNat n.toNat) (inRange_of_le (j := 64) (by norm_num) (by norm_num) ?_)
  rw [abs_of_nonneg (Nat.cast_nonneg _)]
  exact_mod_cast n.toNat_lt.le

end Operations

end Rounding
end NetImage
