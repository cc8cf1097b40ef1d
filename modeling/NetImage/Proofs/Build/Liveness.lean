import NetImage.Build.Liveness
import NetImage.Proofs.Passes

/-!
# NetImage.Proofs.Build.Liveness

How long each output lives, as a formula. Both passes raise the life of what a step reads; they differ
in the value that it is raised to.

* `Liveness.overReaders`: the largest value of a step that reads a given id.
* `Liveness.getElem?_raise`: what one step does.
* `Liveness.getElem?_foldl_raise`: what a pass does.
* `getElem?_lastNeeded`: the life of an output.
-/

namespace NetImage
namespace Liveness

/-- The largest value among the steps that read `id`, or zero. The first step has place `k`. -/
def overReaders (value : Nat → NumberedStep → Nat) (id : Nat) : Nat → List NumberedStep → Nat
  | _, [] => 0
  | k, s :: ss => max (if id ∈ s.inputs then value k s else 0) (overReaders value id (k + 1) ss)

theorem overReaders_le_iff {value : Nat → NumberedStep → Nat} {id b : Nat} {ss : List NumberedStep}
    {k : Nat} : overReaders value id k ss ≤ b ↔
      ∀ (j : Nat) (s : NumberedStep), ss[j]? = some s → id ∈ s.inputs → value (k + j) s ≤ b := by
  induction ss generalizing k with
  | nil => simp [overReaders]
  | cons s ss ih =>
    rw [overReaders, max_le_iff, ih]
    constructor
    · rintro ⟨hhead, htail⟩ j s' hs' hid
      cases j with
      | zero =>
        cases hs'
        simpa [hid] using hhead
      | succ j =>
        have := htail j s' hs' hid
        rwa [Nat.add_right_comm] at this
    · intro h
      refine ⟨?_, ?_⟩
      · split
        · rename_i hid
          exact h 0 s rfl hid
        · exact Nat.zero_le b
      · intro j s' hs' hid
        have := h (j + 1) s' hs' hid
        rwa [← Nat.add_assoc, Nat.add_right_comm] at this

theorem overReaders_congr {value value' : Nat → NumberedStep → Nat} {id : Nat}
    {ss : List NumberedStep} {k : Nat}
    (h : ∀ (j : Nat) (s : NumberedStep), ss[j]? = some s → value (k + j) s = value' (k + j) s) :
    overReaders value id k ss = overReaders value' id k ss := by
  induction ss generalizing k with
  | nil => rfl
  | cons s ss ih =>
    have htail : overReaders value id (k + 1) ss = overReaders value' id (k + 1) ss := by
      refine ih ?_
      intro j s' hs'
      rw [Nat.add_right_comm]
      exact h (j + 1) s' hs'
    rw [overReaders, overReaders, htail, show value k s = value' k s from h 0 s rfl]

/-! ## One step -/

theorem getElem?_raise (nInput last : Nat) (live : Array Nat) (inputs : List Nat) (i : Nat) :
    (raise nInput last live inputs)[i]? =
      live[i]?.map fun v => if nInput + i ∈ inputs then max last v else v := by
  unfold raise
  induction inputs generalizing live with
  | nil => simp
  | cons id inputs ih =>
    rw [List.foldl_cons, ih]
    by_cases hid : id < nInput
    · have hne : nInput + i ≠ id := by omega
      simp [hid, hne]
    · rw [if_neg hid, Array.getElem?_modify]
      by_cases hi : id - nInput = i
      · have heq : nInput + i = id := by omega
        rw [if_pos hi, Option.map_map]
        congr 1
        funext v
        by_cases hmem : nInput + i ∈ inputs
        · simp [heq, heq ▸ hmem]
        · simp [heq, heq ▸ hmem]
      · have hne : nInput + i ≠ id := by omega
        simp [hi, hne]

theorem raise_zero (nInput : Nat) (live : Array Nat) (inputs : List Nat) :
    raise nInput 0 live inputs = live := by
  refine Array.ext_getElem? ?_
  intro i
  rw [getElem?_raise]
  simp

/-- What stands behind everything that a step reads is not raised. -/
theorem getD_raise {nInput last k : Nat} {live : Array Nat} {inputs : List Nat}
    (h : ∀ id ∈ inputs, id < nInput + k) {j : Nat} (hj : k ≤ j) :
    (raise nInput last live inputs).getD j 0 = live.getD j 0 := by
  have hmem : nInput + j ∉ inputs := by
    intro hmem
    have := h _ hmem
    omega
  rw [Array.getD_eq_getD_getElem?, Array.getD_eq_getD_getElem?, getElem?_raise]
  simp [hmem]

/-! ## One pass -/

/-- A pass that raises, step by step, what the step reads. The value may depend on the life of the step
itself, which no earlier step has raised. -/
theorem getElem?_foldl_raise (nInput : Nat) (value : Array Nat → Nat → NumberedStep → Nat)
    (hlocal : ∀ live live' k s, live.getD k 0 = live'.getD k 0 → value live k s = value live' k s)
    (live : Array Nat) (k : Nat) {steps : List NumberedStep}
    (horder : ∀ (j : Nat) (s : NumberedStep), steps[j]? = some s →
      ∀ id ∈ s.inputs, id < nInput + (k + j)) (i : Nat) :
    (steps.foldl (fun (a : Array Nat × Nat) s =>
      (raise nInput (value a.1 a.2 s) a.1 s.inputs, a.2 + 1)) (live, k)).1[i]? =
      live[i]?.map (max (overReaders (value live) (nInput + i) k steps)) := by
  induction steps generalizing live k with
  | nil =>
    cases h : live[i]? with
    | none => simp [h]
    | some v => simp [h, overReaders]
  | cons s steps ih =>
    have hhead : ∀ id ∈ s.inputs, id < nInput + k := horder 0 s rfl
    have htail : ∀ (j : Nat) (s' : NumberedStep), steps[j]? = some s' →
        ∀ id ∈ s'.inputs, id < nInput + (k + 1 + j) := by
      intro j s' hs' id hid
      have := horder (j + 1) s' hs' id hid
      omega
    have hsame : overReaders (value (raise nInput (value live k s) live s.inputs)) (nInput + i)
        (k + 1) steps = overReaders (value live) (nInput + i) (k + 1) steps := by
      refine overReaders_congr ?_
      intro j s' _
      exact hlocal _ _ _ _ (getD_raise hhead (by omega))
    rw [List.foldl_cons, ih _ _ htail, getElem?_raise, Option.map_map, hsame, overReaders]
    congr 1
    funext v
    by_cases hmem : nInput + i ∈ s.inputs
    · simp only [Function.comp_apply, if_pos hmem]
      omega
    · simp only [Function.comp_apply, if_neg hmem]
      omega

/-- The last step that reads `id`, or zero. -/
def lastReader (nInput : Nat) (steps : List NumberedStep) (id : Nat) : Nat :=
  overReaders (fun k _ => k) id nInput steps

/-- The last step that reads a concatenation of `id`, or zero. -/
def lastConcatReader (nInput : Nat) (steps : List NumberedStep) (id : Nat) : Nat :=
  overReaders (fun k s => if s.step.type = .concat then lastReader nInput steps (nInput + k) else 0)
    id 0 steps

section Passes

variable {nInput : Nat} {steps : List NumberedStep}
  (horder : ∀ (j : Nat) (s : NumberedStep), steps[j]? = some s → ∀ id ∈ s.inputs, id < nInput + j)
include horder

theorem getElem?_lastUses {i : Nat} (hi : i < steps.length) :
    (lastUses nInput steps)[i]? = some (lastReader nInput steps (nInput + i)) := by
  have hpass := getElem?_foldl_raise nInput (fun _ k _ => k) (fun _ _ _ _ _ => rfl)
    (Array.replicate steps.length 0) nInput
    (fun j s hs id hid => Nat.lt_of_lt_of_le (horder j s hs id hid) (by omega)) i
  unfold lastUses lastReader
  rw [hpass]
  simp [hi]

theorem getElem?_throughConcats {live : Array Nat} (i : Nat) :
    (throughConcats nInput steps live)[i]? =
      live[i]?.map (max (overReaders
        (fun k s => if s.step.type = .concat then live.getD k 0 else 0) (nInput + i) 0 steps)) := by
  have hpass := getElem?_foldl_raise nInput
    (fun live k s => if s.step.type = .concat then live.getD k 0 else 0)
    (fun _ _ _ _ h => by rw [h]) live 0
    (fun j s hs id hid => Nat.lt_of_lt_of_le (horder j s hs id hid) (by omega)) i
  rw [← hpass]
  unfold throughConcats
  congr 3
  funext a s
  -- a step that is no concatenation raises nothing
  split
  · rfl
  · rw [raise_zero]

end Passes

end Liveness

/-- An output lives until the last step that reads it or reads a concatenation of it. -/
theorem getElem?_lastNeeded {nInput : Nat} {steps : List NumberedStep}
    (horder : ∀ (j : Nat) (s : NumberedStep), steps[j]? = some s →
      ∀ id ∈ s.inputs, id < nInput + j) {i : Nat} (hi : i < steps.length) :
    (lastNeeded nInput steps)[i]? =
      some (max (Liveness.lastConcatReader nInput steps (nInput + i))
        (Liveness.lastReader nInput steps (nInput + i))) := by
  have hconcats : Liveness.overReaders
      (fun k s => if s.step.type = .concat then (Liveness.lastUses nInput steps).getD k 0 else 0)
      (nInput + i) 0 steps = Liveness.lastConcatReader nInput steps (nInput + i) := by
    refine Liveness.overReaders_congr ?_
    intro j s hs
    have hj := (List.getElem?_eq_some_iff.mp hs).1
    rw [Nat.zero_add, Array.getD_eq_getD_getElem?, Liveness.getElem?_lastUses horder hj,
      Option.getD_some]
  rw [lastNeeded, Array.getElem?_toList, Liveness.getElem?_throughConcats horder, hconcats,
    Liveness.getElem?_lastUses horder hi, Option.map_some]

end NetImage
