import Mathlib
import NetImage.Build.Parameters
import NetImage.Proofs.Build.TestSet
import NetImage.Proofs.Number.Q15

/-!
# NetImage.Proofs.Build.Quantizer

Runs of a quantizer. A call clamps its number, counts it if that is to be reported, and rounds it; no
call has an influence on the answer to another.

* `Q15.isReported`, `Q15.clamp`: the comparisons that a call makes.
* `Q15.Quantizes`: the word of one number.
* `Quantizer.call`, `Quantizer.run`: one call, and a run of calls.
* `Quantizer.run_answers`, `Quantizer.run_overflows`: every run.
-/

namespace NetImage

open Rounding

namespace Q15

/-! ## Comparisons -/

/-- Is this number clamped with a report? -/
def isReported (x : Float) : Bool := (x < lower || upper ≤ x || x.isNaN) && x != 1.0

/-- The number of the range that takes the place of another. -/
def clamp (x : Float) : Float :=
  if x.isNaN then 0.0 else if x < lower then lower else if upper ≤ x then upper else x

section Comparisons

variable {x y : Float} {v : EReal} {r : ℝ}

theorem lt_lower_iff (h : Reads x v) : x < lower ↔ v < (-1 : ℝ) := h.lt_iff (.finite denotes_lower)

theorem upper_le_iff (h : Reads x v) : upper ≤ x ↔ ((32767 / 32768 : ℝ) : EReal) ≤ v :=
  Reads.le_iff (.finite denotes_upper) h

theorem isReported_iff (h : Reads x v) :
    isReported x = true ↔
      (v < (-1 : ℝ) ∨ ((32767 / 32768 : ℝ) : EReal) ≤ v) ∧ v ≠ (1 : ℝ) := by
  rw [isReported, h.isNaN_eq_false, Bool.or_false, Bool.and_eq_true, Bool.or_eq_true,
    decide_eq_true_iff, decide_eq_true_iff, lt_lower_iff h, upper_le_iff h, bne, Bool.not_eq_true',
    ← Bool.not_eq_true, h.beq_iff (.finite denotes_one)]

theorem isReported_of_denotes (h : Denotes x r) :
    isReported x = true ↔ (r < -1 ∨ 32767 / 32768 ≤ r) ∧ r ≠ 1 := by
  rw [isReported_iff (.finite h), EReal.coe_lt_coe_iff, EReal.coe_le_coe_iff, Ne,
    EReal.coe_eq_coe_iff]

theorem isReported_of_nan (h : valueOf64 x = .nan) : isReported x = true := by
  rw [isReported, isNaN_iff.mpr h, bne, beq_of_nan h, Bool.or_true]
  rfl

/-- What is not a number is reported, and so is a number from the upper end on or below the lower end,
unless it is one. -/
theorem isReported_iff_reads (x : Float) :
    isReported x = true ↔ valueOf64 x = .nan ∨
      ∃ v, Reads x v ∧ (v < (-1 : ℝ) ∨ ((32767 / 32768 : ℝ) : EReal) ≤ v) ∧ v ≠ (1 : ℝ) := by
  constructor
  · intro h
    by_cases hx : valueOf64 x = .nan
    · exact .inl hx
    · obtain ⟨v, hv⟩ := exists_reads hx
      exact .inr ⟨v, hv, (isReported_iff hv).mp h⟩
  · rintro (hx | ⟨v, hv, h⟩)
    · exact isReported_of_nan hx
    · exact (isReported_iff hv).mpr h

/-- Comparing in 64 bits is comparing the exact values. -/
theorem isBeyond_eq_isReported (x : Float) : isBeyondQ15 x = isReported x := by
  cases hx : valueOf64 x with
  | nan =>
    rw [isBeyondQ15, hx, isReported_of_nan hx]
    rfl
  | infinite negative =>
    have hreported : isReported x = true := by
      cases negative with
      | true =>
        exact (isReported_iff (.bottom hx)).mpr ⟨.inl (EReal.bot_lt_coe _), (EReal.bot_lt_coe _).ne⟩
      | false => exact (isReported_iff (.top hx)).mpr ⟨.inr le_top, (EReal.coe_lt_top _).ne'⟩
    rw [isBeyondQ15, hx, hreported]
    rfl
  | finite negative s e =>
    have hdenotes : Denotes x _ := ⟨negative, s, e, hx, rfl⟩
    rw [Bool.eq_iff_iff, isBeyond_of_denotes hdenotes, isReported_of_denotes hdenotes]

/-! ## Clamping -/

theorem clamp_of_low (h : Reads x v) (hv : v < (-1 : ℝ)) : clamp x = lower := by
  rw [clamp, h.isNaN_eq_false, if_neg Bool.false_ne_true, if_pos ((lt_lower_iff h).mpr hv)]

theorem clamp_of_high (h : Reads x v) (hv : ((32767 / 32768 : ℝ) : EReal) ≤ v) :
    clamp x = upper := by
  have hlow : ((-1 : ℝ) : EReal) ≤ v := le_trans (EReal.coe_le_coe_iff.mpr (by norm_num)) hv
  rw [clamp, h.isNaN_eq_false, if_neg Bool.false_ne_true, if_neg (mt (lt_lower_iff h).mp hlow.not_gt),
    if_pos ((upper_le_iff h).mpr hv)]

theorem clamp_of_between (h : Reads x v) (hlow : ((-1 : ℝ) : EReal) ≤ v)
    (hhigh : v < (32767 / 32768 : ℝ)) : clamp x = x := by
  rw [clamp, h.isNaN_eq_false, if_neg Bool.false_ne_true, if_neg (mt (lt_lower_iff h).mp hlow.not_gt),
    if_neg (mt (upper_le_iff h).mp hhigh.not_ge)]

theorem denotes_clamp (h : Denotes x r) :
    Denotes (clamp x) (min (max r (-1)) (32767 / 32768)) := by
  have hreads : Reads x r := .finite h
  rcases lt_or_ge r (-1) with hlow | hlow
  · rw [clamp_of_low hreads (EReal.coe_lt_coe_iff.mpr hlow), max_eq_right hlow.le,
      min_eq_left (by norm_num)]
    exact denotes_lower
  · rw [max_eq_left hlow]
    rcases le_or_gt (32767 / 32768) r with hhigh | hhigh
    · rw [clamp_of_high hreads (EReal.coe_le_coe_iff.mpr hhigh), min_eq_right hhigh]
      exact denotes_upper
    · rwa [clamp_of_between hreads (EReal.coe_le_coe_iff.mpr hlow) (EReal.coe_lt_coe_iff.mpr hhigh),
        min_eq_left hhigh.le]

/-- Every number is clamped to one of the range, whose steps are counted exactly and rounded. -/
theorem exists_clamp (x : Float) :
    ∃ c, Denotes (clamp x) c ∧ -1 ≤ c ∧ c ≤ 32767 / 32768 ∧ Denotes (clamp x * 32768.0) (c * 32768) ∧
      quantize x = roundHalfAway (c * 32768) := by
  suffices h : ∃ c, Denotes (clamp x) c ∧ -1 ≤ c ∧ c ≤ 32767 / 32768 ∧
      quantize x = roundHalfAway (c * 32768) by
    obtain ⟨c, hc, hlow, hhigh, hquantize⟩ := h
    exact ⟨c, hc, hlow, hhigh, denotes_product hc (abs_le.mpr ⟨hlow, by linarith⟩), hquantize⟩
  cases hx : valueOf64 x with
  | nan =>
    refine ⟨0, ?_, by norm_num, by norm_num, ?_⟩
    · rw [clamp, if_pos (isNaN_iff.mpr hx)]
      exact ⟨false, 0, -1074, rfl, by norm_num⟩
    · rw [quantize, hx, zero_mul, ← Nat.cast_zero, roundHalfAway_natCast]
      rfl
  | infinite negative =>
    cases negative with
    | true =>
      refine ⟨-1, ?_, le_rfl, by norm_num, ?_⟩
      · rw [clamp_of_low (.bottom hx) (EReal.bot_lt_coe _)]
        exact denotes_lower
      · rw [quantize, hx, neg_one_mul, roundHalfAway_neg, ← Nat.cast_ofNat, roundHalfAway_natCast]
        rfl
    | false =>
      refine ⟨32767 / 32768, ?_, by norm_num, le_rfl, ?_⟩
      · rw [clamp_of_high (.top hx) le_top]
        exact denotes_upper
      · rw [quantize, hx, div_mul_cancel₀ _ (by norm_num), ← Nat.cast_ofNat, roundHalfAway_natCast]
        rfl
  | finite negative s e =>
    have hdenotes : Denotes x _ := ⟨negative, s, e, hx, rfl⟩
    exact ⟨_, denotes_clamp hdenotes, le_min (le_max_right _ _) (by norm_num), min_le_right _ _,
      quantize_of_denotes hdenotes⟩

/-! ## The order, and the way back -/

theorem quantize_mono (h : x ≤ y) : quantize x ≤ quantize y := by
  obtain ⟨v, w, hx, hy, hvw⟩ := exists_reads_of_le h
  -- an infinity has the word of an end, where the bounds of a word are enough
  cases hy with
  | top hy =>
    rw [quantize.eq_def y, hy]
    exact (quantize_bounds x).2
  | bottom hy =>
    cases hx with
    | bottom hx => rw [quantize, quantize, hx, hy]
    | finite hx => exact absurd hvw (EReal.bot_lt_coe _).not_ge
    | top hx => exact absurd hvw bot_lt_top.not_ge
  | @finite b hy =>
    cases hx with
    | bottom hx =>
      rw [quantize.eq_def x, hx]
      exact (quantize_bounds y).1
    | @finite a hx =>
      have hab : a ≤ b := EReal.coe_le_coe_iff.mp hvw
      rw [quantize_of_denotes hx, quantize_of_denotes hy]
      exact monotone_roundHalfAway (by gcongr)
    | top hx => exact absurd hvw (EReal.coe_lt_top _).not_ge

theorem toInt_ofInt_quantize (x : Float) : (Int16.ofInt (quantize x)).toInt = quantize x := by
  obtain ⟨hlow, hhigh⟩ := quantize_bounds x
  exact Int16.toInt_ofInt_of_le (by omega) (by omega)

/-- Reading a word back is at most half a step away from the number. -/
theorem exists_dequantize (h : Denotes x r) (hlow : -1 ≤ r) (hhigh : r ≤ 32767 / 32768) :
    ∃ d, Denotes (dequantize (Int16.ofInt (quantize x))) d ∧ |r - d| ≤ 2 ^ (-16 : ℤ) := by
  refine ⟨_, denotes_dequantize _, ?_⟩
  have hclamp : min (max r (-1)) (32767 / 32768) = r := by rw [max_eq_left hlow, min_eq_left hhigh]
  rw [toInt_ofInt_quantize, quantize_of_denotes h, hclamp]
  generalize hn : (roundHalfAway (r * 32768) : ℝ) = n
  have herror : |r * 32768 - n| ≤ 1 / 2 := hn ▸ abs_sub_roundHalfAway_le (r * 32768)
  calc |r - n / 32768| = |(r * 32768 - n) / 32768| := by congr 1; ring
    _ = |r * 32768 - n| / 32768 := by rw [abs_div, abs_of_pos (show (0 : ℝ) < 32768 by norm_num)]
    _ ≤ 1 / 2 / 32768 := by gcongr
    _ = 2 ^ (-16 : ℤ) := by norm_num

end Comparisons

/-! ## One number -/

/-- The word `q` of a number. -/
structure Quantizes (x : Float) (q : ℤ) : Prop where
  /-- A finite number is clamped and rounded, a half going away from zero. -/
  finite : ∀ r, Denotes x r → q = roundHalfAway (min (max r (-1)) (32767 / 32768) * 32768)
  below : valueOf64 x = .infinite true → q = -32768
  above : valueOf64 x = .infinite false → q = 32767
  nan : valueOf64 x = .nan → q = 0
  /-- The number of the range is counted in steps without loss. -/
  clamped : ∃ c, Denotes (clamp x) c ∧ -1 ≤ c ∧ c ≤ 32767 / 32768 ∧
    Denotes (clamp x * 32768.0) (c * 32768) ∧ q = roundHalfAway (c * 32768)
  bounds : -32768 ≤ q ∧ q ≤ 32767
  /-- Nothing is cut off where the word is stored. -/
  stored : (Int16.ofInt q).toInt = q
  /-- The way back ends at most half a step away from a number of the range. -/
  back : ∀ r, Denotes x r → -1 ≤ r → r ≤ 32767 / 32768 →
    ∃ d, Denotes (dequantize (Int16.ofInt q)) d ∧ |r - d| ≤ 2 ^ (-16 : ℤ)

theorem quantizes_quantize (x : Float) : Quantizes x (quantize x) where
  finite _ := quantize_of_denotes
  below h := by rw [quantize, h]; rfl
  above h := by rw [quantize, h]; rfl
  nan h := by rw [quantize, h]; rfl
  clamped := exists_clamp x
  bounds := quantize_bounds x
  stored := toInt_ofInt_quantize x
  back _ := exists_dequantize

end Q15

/-! ## Runs -/

/-- A quantizer: how many numbers it has reported. -/
structure Quantizer where
  overflows : Nat

namespace Quantizer

/-- A call of a quantizer. -/
inductive Call where
  | quantize (x : Float)
  | scaled (x : Float) (scale : Int64)

/-- The number that a call quantizes. -/
def Call.number : Call → Float
  | .quantize x => x
  | .scaled x scale => descale x scale

/-- The answer to a call, and the quantizer after it. -/
def call (q : Quantizer) (c : Call) : Int16 × Quantizer :=
  (Int16.ofInt (quantize c.number),
    if Q15.isReported c.number then ⟨q.overflows + 1⟩ else q)

/-- The answers to some calls, and the quantizer after them. -/
def run (q : Quantizer) : List Call → List Int16 × Quantizer
  | [] => ([], q)
  | c :: calls =>
    let next := (q.call c).2
    ((q.call c).1 :: (next.run calls).1, (next.run calls).2)

theorem overflows_call (q : Quantizer) (c : Call) :
    (q.call c).2.overflows = q.overflows + [c.number].countP Q15.isReported := by
  by_cases h : Q15.isReported c.number = true
  · simp [call, h]
  · simp [call, h]

theorem run_answers (q : Quantizer) (calls : List Call) :
    (q.run calls).1 = calls.map fun c => Int16.ofInt (quantize c.number) := by
  induction calls generalizing q with
  | nil => rfl
  | cons c calls ih => rw [run, ih, List.map_cons, call]

theorem run_overflows (q : Quantizer) (calls : List Call) :
    (q.run calls).2.overflows =
      q.overflows + (calls.map Call.number).countP Q15.isReported := by
  induction calls generalizing q with
  | nil => rfl
  | cons c calls ih =>
    rw [run, ih, overflows_call, Nat.add_assoc, ← List.countP_append]
    rfl

/-- Values in fixed point are the answers of a run. -/
theorem run_scaled (q : Quantizer) (scale : Int64) (values : List Float) :
    (Quantized.ofValues scale values).bytes =
        (q.run (values.map (.scaled · scale))).1.flatMap (fun a => Wire.i16 a.toInt) ∧
      (q.run (values.map (.scaled · scale))).2.overflows =
        q.overflows + (Quantized.ofValues scale values).overflows := by
  constructor
  · rw [run_answers, List.map_map, List.flatMap_map, Quantized.ofValues, List.flatMap_map]
    simp only [Function.comp_apply, Call.number, Q15.toInt_ofInt_quantize]
  · rw [run_overflows, List.map_map, Quantized.ofValues, countBeyondQ15,
      show isBeyondQ15 = Q15.isReported from funext Q15.isBeyond_eq_isReported]
    rfl

/-- **Runs of a quantizer.** Every answer of a run is the word of the number of its call, whatever was
called before, and a larger number has no smaller word. The count grows by the calls with what is not a
number, with a number below the lower end, and with one that is not below the upper end, exactly one
excepted. The values of a constant or a sample are stored as the answers of such a run. -/
theorem run_quantizes (q : Quantizer) (calls : List Call) :
    (q.run calls).1 = calls.map (fun c => Int16.ofInt (quantize c.number)) ∧
    (q.run calls).2.overflows = q.overflows + (calls.map Call.number).countP Q15.isReported ∧
    (∀ x, Q15.isReported x = true ↔ valueOf64 x = .nan ∨
      ∃ v, Reads x v ∧ (v < (-1 : ℝ) ∨ ((32767 / 32768 : ℝ) : EReal) ≤ v) ∧ v ≠ (1 : ℝ)) ∧
    (∀ x, Q15.Quantizes x (quantize x)) ∧
    (∀ x y, x ≤ y → quantize x ≤ quantize y) ∧
    ∀ scale values,
      (Quantized.ofValues scale values).bytes =
          (q.run (values.map (.scaled · scale))).1.flatMap (fun a => Wire.i16 a.toInt) ∧
        (q.run (values.map (.scaled · scale))).2.overflows =
          q.overflows + (Quantized.ofValues scale values).overflows :=
  ⟨q.run_answers calls, q.run_overflows calls, Q15.isReported_iff_reads, Q15.quantizes_quantize,
    fun _ _ => Q15.quantize_mono, q.run_scaled⟩

/-- A tie below zero, one, what is not a number, a quotient that is too large, and the lower end. -/
def mixedCalls : List Call :=
  [.quantize (-1.5 / 32768.0), .quantize 1.0, .quantize (0.0 / 0.0), .scaled 3.0 2, .quantize (-1.0)]

theorem mixedCalls_quantized :
    (run ⟨4⟩ mixedCalls).1 = [-2, 32767, 0, 32767, -32768] ∧ (run ⟨4⟩ mixedCalls).2.overflows = 6 ∧
    quantize Q15.lower ≤ quantize Q15.upper ∧
    ∃ d, Denotes (dequantize (Int16.ofInt (quantize Q15.upper))) d ∧
      |32767 / 32768 - d| ≤ 2 ^ (-16 : ℤ) := by
  obtain ⟨hanswers, hoverflows, -, hquantizes, hmono, -⟩ := run_quantizes ⟨4⟩ mixedCalls
  refine ⟨?_, ?_, hmono _ _ (by decide), ?_⟩
  · rw [hanswers]
    decide
  · rw [hoverflows]
    decide
  · exact (hquantizes Q15.upper).back _ Q15.denotes_upper (by norm_num) le_rfl

end Quantizer
end NetImage
