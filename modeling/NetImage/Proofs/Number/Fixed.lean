import Mathlib
import NetImage.Number.Fixed
import NetImage.Proofs.Number.Decimal
import NetImage.Proofs.Number.Denotation

/-!
# NetImage.Proofs.Number.Fixed

Numbers with four places. A number that is finite when rounded to 32 bits is written as a number of the
graph language, and every number that is not larger is finite too.

* `roundHalfEven_spec`: the nearest integer.
* `Format.round_lt_infinity_iff`, `finite32_iff`: which numbers are finite in 32 bits.
* `accepts_fixedPoint`: how they are written.
-/

namespace NetImage

open Rounding

/-! ## The range of 32 bits -/

/-- The nearest integer is at most one half away, and even if it is one half below. -/
theorem roundHalfEven_spec (num : Nat) {den : Nat} (hden : 0 < den) :
    2 * roundHalfEven num den * den ≤ 2 * num + den ∧
      2 * num ≤ (2 * roundHalfEven num den + 1) * den ∧
      (2 * num = (2 * roundHalfEven num den + 1) * den → roundHalfEven num den % 2 = 0) := by
  have hnum := Nat.div_add_mod num den
  have hrest := Nat.mod_lt num hden
  unfold roundHalfEven
  generalize num / den = q at *
  generalize num % den = r at *
  simp only
  split
  · exact ⟨by linarith, by linarith, fun heq => by linarith⟩
  · split
    · exact ⟨by linarith, by linarith, fun heq => by linarith⟩
    · have hhalf : 2 * r = den := by omega
      rcases Nat.mod_two_eq_zero_or_one q with heven | hodd
      · rw [heven, Nat.add_zero]
        exact ⟨by linarith, by linarith, fun _ => heven⟩
      · rw [hodd]
        exact ⟨by linarith, by linarith, fun heq => by linarith⟩

theorem roundHalfEven_le {num den k : Nat} (hden : 0 < den) (h : num ≤ k * den) :
    roundHalfEven num den ≤ k := by
  by_contra hlt
  have hspec := (roundHalfEven_spec num hden).1
  nlinarith

theorem le_roundHalfEven {num den k : Nat} (hden : 0 < den) (h : k * den ≤ num) :
    k ≤ roundHalfEven num den := by
  by_contra hlt
  have hspec := (roundHalfEven_spec num hden).2.1
  nlinarith

/-- A tie in front of an even number goes to that number. -/
theorem roundHalfEven_lt_iff {num den k : Nat} (hden : 0 < den) (hk : k % 2 = 0) :
    roundHalfEven num den < k ↔ 2 * num + den < 2 * k * den := by
  obtain ⟨hlower, hupper, htie⟩ := roundHalfEven_spec num hden
  constructor
  · intro h
    rcases hupper.lt_or_eq with hlt | heq
    · nlinarith
    · have heven := htie heq
      have : roundHalfEven num den + 2 ≤ k := by omega
      nlinarith
  · intro h
    by_contra hge
    nlinarith

theorem overflow32_lt : overflow32 < 2 ^ (128 : ℤ) := by
  rw [overflow32, show (128 : ℤ) = 25 + 103 from rfl, zpow_add₀ two_ne_zero]
  gcongr
  norm_num

theorem lt_overflow32 : 2 ^ (127 : ℤ) < overflow32 := by
  rw [overflow32, show (127 : ℤ) = 24 + 103 from rfl, zpow_add₀ two_ne_zero]
  gcongr
  norm_num

theorem natCast_lt_two_zpow (s : Nat) (e : ℤ) : (s * 2 ^ e : ℝ) < 2 ^ (s.log2 + 1 + e) := by
  have hs : (s : ℝ) < 2 ^ ((s.log2 : ℤ) + 1) := by exact_mod_cast Nat.lt_log2_self
  rw [zpow_add₀ two_ne_zero _ e]
  have := two_zpow_pos e
  gcongr

theorem two_zpow_le_natCast {s : Nat} (hs : s ≠ 0) (e : ℤ) : (2 : ℝ) ^ (s.log2 + e) ≤ s * 2 ^ e := by
  have hs' : (2 : ℝ) ^ (s.log2 : ℤ) ≤ s := by exact_mod_cast Nat.log2_self_le hs
  rw [zpow_add₀ two_ne_zero _ e]
  gcongr

/-- A positive number in units of its last place, which number at most 24 digits, and not less unless
the place is the least one. -/
theorem Format.exists_round {s : Nat} (hs : s ≠ 0) (e : ℤ) :
    ∃ (place : ℤ) (num den : ℕ), -149 ≤ place ∧ 0 < den ∧
      (s * 2 ^ e : ℝ) * den = num * 2 ^ place ∧
      (s * 2 ^ e : ℝ) < 2 ^ (24 + place) ∧
      (place ≠ -149 → (2 : ℝ) ^ (23 + place) ≤ s * 2 ^ e) ∧
      Format.binary32.round s e =
        min (255 * 2 ^ 23) ((place - -149).toNat * 2 ^ 23 + roundHalfEven num den) := by
  obtain ⟨place, hplace⟩ : ∃ p : ℤ, p = max (-149) (s.log2 + e - 23) := ⟨_, rfl⟩
  refine ⟨place, s * 2 ^ (e - place).toNat, 2 ^ (place - e).toNat, by omega, by positivity, ?_, ?_,
    ?_, ?_⟩
  · push_cast
    rw [← zpow_natCast, ← zpow_natCast, mul_assoc, mul_assoc, ← zpow_add₀ two_ne_zero,
      ← zpow_add₀ two_ne_zero]
    congr 2
    omega
  · exact (natCast_lt_two_zpow s e).trans_le (zpow_le_zpow_right₀ one_le_two (by omega))
  · intro hleast
    rw [show 23 + place = s.log2 + e by omega]
    exact two_zpow_le_natCast hs e
  · simp only [Format.round, if_neg hs]
    rw [show max Format.binary32.least (s.log2 + e - (Format.binary32.digits - 1)) = place from
      hplace.symm, Nat.shiftLeft_eq s, Nat.one_shiftLeft]
    rfl

theorem Format.round_lt_infinity_iff (s : Nat) (e : ℤ) :
    Format.binary32.round s e < Format.binary32.infinity ↔ (s * 2 ^ e : ℝ) < overflow32 := by
  by_cases hs : s = 0
  · subst hs
    refine iff_of_true (by simp [Format.round, Format.binary32]) ?_
    rw [Nat.cast_zero, zero_mul, overflow32]
    exact mul_pos (by norm_num) (two_zpow_pos 103)
  obtain ⟨place, num, den, hleast, hden, hx, hupper, hlower, hround⟩ := Format.exists_round hs e
  have hden' : (0 : ℝ) < den := by exact_mod_cast hden
  -- comparing with a multiple of the last place is comparing integers
  have hlt : ∀ k : ℝ, (s * 2 ^ e : ℝ) < k * 2 ^ place ↔ (num : ℝ) < k * den := by
    intro k
    rw [← mul_lt_mul_iff_left₀ hden', hx, mul_right_comm, mul_lt_mul_iff_left₀ (two_zpow_pos place)]
  have hkept : roundHalfEven num den ≤ 2 ^ 24 := by
    refine roundHalfEven_le hden ?_
    rw [zpow_add₀ two_ne_zero, hlt] at hupper
    exact_mod_cast hupper.le
  rw [hround, show Format.binary32.infinity = 255 * 2 ^ 23 from rfl, min_lt_iff,
    or_iff_right (lt_irrefl _)]
  rcases lt_trichotomy place 104 with hplace | rfl | hplace
  · refine iff_of_true (by omega) (hupper.trans_le ?_)
    exact (zpow_le_zpow_right₀ one_le_two (by omega)).trans lt_overflow32.le
  · have hhalf : overflow32 = (2 ^ 24 - 1 / 2) * 2 ^ (104 : ℤ) := by
      rw [overflow32, show (104 : ℤ) = 103 + 1 by norm_num, zpow_add_one₀ two_ne_zero]
      ring
    rw [hhalf, hlt]
    have hcount : ((104 : ℤ) - -149).toNat * 2 ^ 23 + roundHalfEven num den < 255 * 2 ^ 23 ↔
        roundHalfEven num den < 2 ^ 24 := by omega
    rw [hcount, roundHalfEven_lt_iff hden (by norm_num)]
    constructor
    · intro h
      have : (2 * num + den : ℝ) < 2 * 2 ^ 24 * den := by exact_mod_cast h
      linarith
    · intro h
      have : (2 * num + den : ℝ) < 2 * 2 ^ 24 * den := by linarith
      exact_mod_cast this
  · have hfull := hlower (by omega)
    refine iff_of_false ?_ (not_lt.mpr (le_trans ?_ hfull))
    · have : 2 ^ 23 ≤ roundHalfEven num den := by
        refine le_roundHalfEven hden ?_
        rw [zpow_add₀ two_ne_zero, ← not_lt, hlt, not_lt] at hfull
        exact_mod_cast hfull
      omega
    · exact overflow32_lt.le.trans (zpow_le_zpow_right₀ one_le_two (by omega))

/-- A word that is not above infinity is kept. -/
theorem toBits_ofBits {w : UInt32} (h : w.toNat % 2 ^ 31 ≤ 255 * 2 ^ 23) :
    (Float32.ofBits w).toBits = w := by
  show UInt32.ofBitVec (Float.Model.UnpackedFloat.pack Float.Model.Format.binary32
    (Float.Model.UnpackedFloat.unpack Float.Model.Format.binary32 w.toBitVec)) = w
  rw [Float.Model.UnpackedFloat.pack_unpack, if_neg]
  simp only [Float.Model.UnpackedFloat.isNaNBits, decide_eq_true_eq]
  rintro ⟨hexponent, hmantissa⟩
  refine hmantissa (BitVec.eq_of_toNat_eq ?_)
  have hexponent' := congrArg BitVec.toNat hexponent
  rw [Float.Model.UnpackedFloat.unpackExponent_def, BitVec.extractLsb'_toNat,
    Nat.shiftRight_eq_div_pow] at hexponent'
  rw [Float.Model.UnpackedFloat.unpackMantissa_def, BitVec.extractLsb'_toNat, Nat.shiftRight_zero]
  have hlt := w.toNat_lt
  change w.toNat / 2 ^ 23 % 2 ^ 8 = 255 at hexponent'
  show w.toNat % 2 ^ 23 = 0
  omega

/-- Is a number finite when it is rounded to 32 bits? -/
def Finite32 (x : Float) : Prop :=
  ∃ negative significand exponent, valueOf32 (narrow x) = .finite negative significand exponent

theorem finite32_of_finite {x : Float} {negative : Bool} {s : Nat} {e : ℤ}
    (h : valueOf64 x = .finite negative s e) :
    Finite32 x ↔ Format.binary32.round s e < Format.binary32.infinity := by
  obtain ⟨magnitude, hmagnitude⟩ : ∃ n, n = Format.binary32.round s e := ⟨_, rfl⟩
  have hle : magnitude ≤ 255 * 2 ^ 23 := by
    rw [hmagnitude, Format.round]
    split
    · exact Nat.zero_le _
    · exact min_le_left _ _
  obtain ⟨word, hword⟩ : ∃ n, n = Format.binary32.signed negative magnitude := ⟨_, rfl⟩
  have hmod : word < 2 ^ 32 ∧ word % 2 ^ 31 = magnitude := by
    rw [hword, Format.signed, show Format.binary32.signBit = 2 ^ 31 from rfl]
    split <;> omega
  have hbits : (UInt32.ofNat word).toNat = word := UInt32.toNat_ofNat_of_lt hmod.1
  have hvalue : valueOf32 (narrow x) = Format.binary32.unpack word := by
    rw [narrow, h, Format.pack, ← hmagnitude, ← hword, valueOf32, toBits_ofBits, hbits]
    rw [hbits, hmod.2]
    exact hle
  rw [Finite32, hvalue, ← hmagnitude, Format.unpack, show Format.binary32.signBit = 2 ^ 31 from rfl]
  simp only [hmod.2, show Format.binary32.infinity = 255 * 2 ^ 23 from rfl]
  rw [if_neg hle.not_gt]
  by_cases hinfinite : magnitude = 255 * 2 ^ 23
  · rw [if_pos hinfinite, hinfinite]
    simp
  · rw [if_neg hinfinite]
    refine iff_of_true ?_ (lt_of_le_of_ne hle hinfinite)
    split <;> exact ⟨_, _, _, rfl⟩

theorem finite32_iff {x : Float} : Finite32 x ↔ ∃ r, Denotes x r ∧ |r| < overflow32 := by
  cases h : valueOf64 x with
  | nan =>
    have hvalue : valueOf32 (narrow x) = .nan := by
      rw [narrow, h]
      decide +kernel
    simp [Finite32, hvalue, Denotes, h]
  | infinite negative =>
    have hvalue : valueOf32 (narrow x) = .infinite negative := by
      rw [narrow, h]
      cases negative <;> decide +kernel
    simp [Finite32, hvalue, Denotes, h]
  | finite negative s e =>
    have habs : |(if negative = true then -1 else 1) * (s * 2 ^ e : ℝ)| = s * 2 ^ e := by
      have : (0 : ℝ) ≤ s * 2 ^ e := mul_nonneg (Nat.cast_nonneg _) (two_zpow_pos e).le
      cases negative <;> simp [abs_of_nonneg this]
    rw [finite32_of_finite h, Format.round_lt_infinity_iff]
    constructor
    · intro hlt
      exact ⟨_, ⟨negative, s, e, h, rfl⟩, by rwa [habs]⟩
    · rintro ⟨r, ⟨negative', s', e', h', rfl⟩, hlt⟩
      rw [h] at h'
      cases h'
      rwa [habs] at hlt

/-- A number of no larger magnitude is finite too. -/
theorem Finite32.of_le {x y : Float} {a b : ℝ} (h : Finite32 x) (hx : Denotes x a)
    (hy : Denotes y b) (hle : |b| ≤ |a|) : Finite32 y := by
  obtain ⟨a', hx', hlt⟩ := finite32_iff.mp h
  rw [hx'.unique hx] at hlt
  exact finite32_iff.mpr ⟨b, hy, hle.trans_lt hlt⟩

/-! ## Texts -/

namespace Fixed

theorem isDigit_of_mem_padded {width n : Nat} {b : UInt8} (h : b ∈ padded width n) :
    isDigit b = true := by
  induction width generalizing n with
  | zero => cases h
  | succ width ih =>
    rcases List.mem_append.mp h with h | h
    · exact ih h
    · rw [List.mem_singleton.mp h]
      have hd : n % 10 < 10 := Nat.mod_lt _ (by omega)
      generalize n % 10 = d at *
      interval_cases d <;> decide

theorem length_padded (width n : Nat) : (padded width n).length = width := by
  induction width generalizing n with
  | zero => rfl
  | succ width ih => rw [padded, List.length_append, ih]; rfl

/-- A magnitude is digits without a superfluous zero, a point and four digits. -/
theorem reads_magnitude (units : Nat) :
    ((Pattern.afterNat (magnitude units)).bind Pattern.afterFraction).bind Pattern.afterExponent =
      some [] := by
  have hdigits : Pattern.afterDigits (padded places units) = some [] := by
    cases hpadded : padded places units with
    | nil => exact absurd (length_padded places units) (by rw [hpadded]; decide)
    | cons b rest =>
      have hall : ∀ c ∈ b :: rest, isDigit c = true := fun c hc =>
        isDigit_of_mem_padded (hpadded ▸ hc)
      rw [List.forall_mem_cons] at hall
      rw [Pattern.afterDigits, if_pos hall.1, List.dropWhile_eq_nil_iff.mpr hall.2]
  rw [magnitude, Pattern.afterNat_decimalNat_append _ (by simp [isDigit])]
  show (Pattern.afterDigits (padded places units)).bind Pattern.afterExponent = some []
  rw [hdigits]
  rfl

theorem unsigned_magnitude (units : Nat) :
    Pattern.unsigned (magnitude units) = magnitude units := by
  obtain ⟨b, s, hs, hb, -⟩ := exists_decimalNat (units / unit)
  rw [magnitude, hs, List.cons_append, Pattern.unsigned]
  intro tail hcons
  exact digit_ne hb (show isDigit 0x2d = false by decide) (List.cons.inj hcons).1

end Fixed

theorem fixedPoint_cases {x : Float} (h : Finite32 x) :
    ∃ units, fixedPoint x = Fixed.magnitude units ∨ fixedPoint x = 0x2d :: Fixed.magnitude units := by
  obtain ⟨negative, s, e, hvalue⟩ := h
  simp only [fixedPoint, hvalue]
  cases negative with
  | false => exact ⟨_, .inl rfl⟩
  | true => exact ⟨_, .inr rfl⟩

theorem accepts_fixedPoint {x : Float} (h : Finite32 x) :
    Pattern.float.accepts (fixedPoint x) = true := by
  obtain ⟨units, hx | hx⟩ := fixedPoint_cases h
  · rw [hx, Pattern.accepts, Fixed.unsigned_magnitude, Fixed.reads_magnitude]
    rfl
  · rw [hx, Pattern.accepts, Pattern.unsigned, Fixed.reads_magnitude]
    rfl

theorem mem_fixedPoint {x : Float} (h : Finite32 x) {b : UInt8} (hb : b ∈ fixedPoint x) :
    isDigit b = true ∨ b = 0x2d ∨ b = 0x2e := by
  have hmagnitude : ∀ units, b ∈ Fixed.magnitude units → isDigit b = true ∨ b = 0x2e := by
    intro units hb
    rcases List.mem_append.mp hb with hb | hb
    · exact .inl (isDigit_of_mem_decimalNat _ b hb)
    · rcases List.mem_cons.mp hb with rfl | hb
      · exact .inr rfl
      · exact .inl (Fixed.isDigit_of_mem_padded hb)
  obtain ⟨units, hx | hx⟩ := fixedPoint_cases h
  · exact (hmagnitude units (hx ▸ hb)).imp_right .inr
  · rcases List.mem_cons.mp (hx ▸ hb) with rfl | hb
    · exact .inr (.inl rfl)
    · exact (hmagnitude units hb).imp_right .inr

end NetImage
