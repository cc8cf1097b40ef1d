import Mathlib
import NetImage.Example.Sketch
import NetImage.Proofs.Graph.Writing
import NetImage.Proofs.Number.Fixed

/-!
# NetImage.Proofs.Example.Weights

Generated weights. Every draw is between minus the bound and the bound, whatever the state of the
generator, so that it is written as a number of the graph language if the bound itself is finite in 32
bits.

* `Generator.denotes_unit`: the numbers that the generator gives.
* `Generator.unit_eq_of_le`: the cut on redrawing only matters where all draws up to it round to one.
* `Sketch.finite32_weight`, `Sketch.finite32_convBound`: weights, and the bound for a convolution.
* `Sketch.draw_spec`: the texts that are drawn.
-/

namespace NetImage

open Rounding

namespace Rounding

theorem denotes_two : Denotes 2.0 2 := ⟨false, 2 ^ 52, -51, rfl, by norm_num⟩

theorem denotes_two_pow_63 : Denotes 9223372036854775808.0 (2 ^ 63) :=
  ⟨false, 2 ^ 52, 11, by decide +kernel, by norm_num⟩

end Rounding

namespace Generator

theorem denotes_quotient (word : UInt64) :
    ∃ r, Denotes ((word &&& 0x7fffffffffffffff).toFloat / 9223372036854775808.0) r ∧
      0 ≤ r ∧ r ≤ 1 := by
  obtain ⟨n, hn, hnear⟩ := denotes_toFloat (word &&& 0x7fffffffffffffff)
  have hmask : (word &&& 0x7fffffffffffffff).toNat ≤ 2 ^ 63 := by
    rw [UInt64.toNat_and]
    exact Nat.and_le_right.trans (by decide)
  have hlow : 0 ≤ n := hnear.nonneg (Nat.cast_nonneg _)
  have hhigh : n ≤ 2 ^ 63 := by
    refine (hnear (2 ^ 63) ?_).1 (by exact_mod_cast hmask)
    exact_mod_cast grid_two_zpow (j := 63) (by norm_num)
  have hunit : 0 ≤ n / 2 ^ 63 ∧ n / 2 ^ 63 ≤ 1 :=
    ⟨by positivity, (div_le_one (by positivity)).mpr hhigh⟩
  obtain ⟨r, hr, hnear'⟩ := denotes_div hn denotes_two_pow_63 (by positivity)
    (inRange_of_abs_le_two (by rw [abs_of_nonneg hunit.1]; linarith [hunit.2]))
  exact ⟨r, hr, hnear'.nonneg hunit.1, (hnear' 1 grid_one).1 hunit.2⟩

theorem denotes_unit (redraws : Nat) (g : Generator) :
    ∃ r, Denotes (g.unit redraws).1 r ∧ 0 ≤ r ∧ r ≤ 1 := by
  induction redraws generalizing g with
  | zero => exact denotes_quotient g.next.1
  | succ n ih =>
    rw [unit]
    simp only
    split
    · exact ih _
    · exact denotes_quotient g.next.1

/-- A number that is not one is the same, and leaves the same generator, for every later cut. -/
theorem unit_eq_of_le {n m : Nat} (h : n ≤ m) {g : Generator}
    (hne : ((g.unit n).1 == 1.0) = false) : g.unit m = g.unit n := by
  induction n generalizing m g with
  | zero =>
    cases m with
    | zero => rfl
    | succ m => exact if_neg (Bool.eq_false_iff.mp hne)
  | succ n ih =>
    obtain ⟨m, rfl⟩ := Nat.exists_eq_add_of_le' (Nat.one_le_of_lt h)
    rw [unit] at hne ⊢
    rw [unit]
    simp only at hne ⊢
    split at hne
    case isTrue hone =>
      rw [if_pos hone, if_pos hone]
      exact ih (Nat.le_of_succ_le_succ h) hne
    case isFalse hone => rw [if_neg hone, if_neg hone]

end Generator

namespace Sketch

/-- A weight is no larger than the bound. -/
theorem denotes_weight {x bound : Float} {r b : ℝ} (hx : Denotes x r) (hlow : 0 ≤ r) (hhigh : r ≤ 1)
    (hbound : Denotes bound b) (hb : |b| < 2 ^ (1024 : ℤ)) :
    ∃ v, Denotes ((x * 2.0 - 1.0) * bound) v ∧ |v| ≤ |b| := by
  obtain ⟨p, hp, hnear⟩ := denotes_mul hx denotes_two
    (inRange_of_abs_le_two (by rw [abs_of_nonneg (by positivity)]; linarith))
  have hp₀ : 0 ≤ p := hnear.nonneg (by positivity)
  have hp₂ : p ≤ 2 := by
    refine (hnear 2 ?_).1 (by linarith)
    exact_mod_cast grid_intCast (k := 2) (by norm_num)
  have hshift : |p - 1| ≤ 1 := abs_le.mpr ⟨by linarith, by linarith⟩
  obtain ⟨t, ht, hnear'⟩ := denotes_sub hp denotes_one (inRange_of_abs_le_two (by linarith))
  have ht₁ : |t| ≤ 1 := hnear'.within grid_one hshift
  have hproduct : |t * b| ≤ |b| := by
    rw [abs_mul]
    exact mul_le_of_le_one_left (abs_nonneg b) ht₁
  have hgrid : Grid |b| := (denotes_iff.mp hbound).grid.abs
  obtain ⟨v, hv, hnear''⟩ := denotes_mul ht hbound ⟨|b|, hgrid, hproduct, hb⟩
  exact ⟨v, hv, hnear''.within hgrid hproduct⟩

theorem finite32_weight {bound : Float} (h : Finite32 bound) (redraws : Nat) (g : Generator) :
    Finite32 (((g.unit redraws).1 * 2.0 - 1.0) * bound) := by
  obtain ⟨b, hb, hlt⟩ := finite32_iff.mp h
  obtain ⟨r, hr, hlow, hhigh⟩ := g.denotes_unit redraws
  have hb' : |b| < 2 ^ (1024 : ℤ) :=
    (hlt.trans overflow32_lt).trans (zpow_lt_zpow_right₀ one_lt_two (by norm_num))
  obtain ⟨v, hv, hle⟩ := denotes_weight hr hlow hhigh hb hb'
  exact h.of_le hb hv hle

theorem denotes_floatOfInt64 {n : Int64} (hn : 1 ≤ n.toInt) :
    ∃ a, Denotes (floatOfInt64 n) a ∧ 1 ≤ a ∧ a ≤ 2 ^ (64 : ℤ) := by
  obtain ⟨m, hm⟩ : ∃ m : UInt64, m = UInt64.ofNat n.toInt.natAbs := ⟨_, rfl⟩
  have hneg : ¬ n < 0 := by
    rw [Int64.lt_iff_toInt_lt]
    exact not_lt.mpr (by simpa using (by omega : 0 ≤ n.toInt))
  have hcast : 1 ≤ m.toNat := by
    have := Int64.toInt_lt n
    rw [hm, UInt64.toNat_ofNat', Nat.mod_eq_of_lt (by omega)]
    omega
  obtain ⟨a, ha, hnear⟩ := denotes_toFloat m
  refine ⟨a, ?_, ?_, ?_⟩
  · rwa [floatOfInt64, ← hm, if_neg hneg]
  · exact (hnear 1 grid_one).2 (by exact_mod_cast hcast)
  · refine (hnear _ (grid_two_zpow (by norm_num))).1 ?_
    exact_mod_cast m.toNat_lt.le

theorem finite32_convBound {n : Int64} (hn : 1 ≤ n.toInt) :
    Finite32 (1.0 / (floatOfInt64 n).sqrt) := by
  obtain ⟨a, ha, hlow, hhigh⟩ := denotes_floatOfInt64 hn
  have hroot : 1 ≤ √a := Real.one_le_sqrt.mpr hlow
  have hroot' : |√a| ≤ 2 ^ (64 : ℤ) := by
    rw [abs_of_nonneg (Real.sqrt_nonneg a)]
    exact (Real.sqrt_le_self_iff.mpr (.inr hlow)).trans hhigh
  obtain ⟨s, hs, hnear'⟩ := denotes_sqrt ha (by linarith)
    (inRange_of_le (by norm_num) (by norm_num) hroot')
  have hs₁ : 1 ≤ s := (hnear' 1 grid_one).2 hroot
  have hquotient : |1 / s| ≤ 1 := by
    rw [abs_of_nonneg (by positivity)]
    exact (div_le_one (by linarith)).mpr hs₁
  obtain ⟨v, hv, hnear''⟩ := denotes_div denotes_one hs (by linarith)
    (inRange_of_abs_le_two (by linarith))
  refine finite32_iff.mpr ⟨v, hv, (hnear''.within grid_one hquotient).trans_lt ?_⟩
  exact (one_lt_zpow₀ one_lt_two (by norm_num)).trans lt_overflow32

/-! ## Texts -/

theorem isNumber_fixedPoint {x : Float} (h : Finite32 x) : IsNumber (fixedPoint x) :=
  ⟨accepts_fixedPoint h, fun _ hb => mem_fixedPoint h hb⟩

/-- As many numbers are drawn as are asked for. -/
theorem draw_spec {bound : Float} (h : Finite32 bound) (n : Nat) {done : List Bytes}
    (hdone : ∀ t ∈ done, IsNumber t) (g : Generator) :
    (draw bound n done g).1.length = done.length + n ∧ ∀ t ∈ (draw bound n done g).1, IsNumber t := by
  induction n generalizing done g with
  | zero => simpa [draw] using hdone
  | succ n ih =>
    have hnext : ∀ t ∈ fixedPoint (((g.unit redraws).1 * 2.0 - 1.0) * bound) :: done, IsNumber t :=
      List.forall_mem_cons.mpr ⟨isNumber_fixedPoint (finite32_weight h redraws g), hdone⟩
    obtain ⟨hlength, hall⟩ := ih hnext (g.unit redraws).2
    simp only [draw]
    refine ⟨?_, hall⟩
    rw [hlength, List.length_cons]
    omega

end Sketch
end NetImage
