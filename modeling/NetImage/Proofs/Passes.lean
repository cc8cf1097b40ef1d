import Mathlib.Data.List.Forall2
import Mathlib.Tactic

/-!
# NetImage.Proofs.Passes

Runs of computations that may fail. A pass over a list succeeds if and only if each of its
steps does, so what a run keeps follows from what a step keeps.

* `bind_eq_ok`, `seq_eq_ok`, `guard_eq_ok`: one computation or check after another.
* `mapM_eq_ok`, `forM_eq_ok`, `exists_mapM_iff`: the same computation for every element.
* `bind_eq_error`, `forM_eq_error`, `mapM_eq_error_iff`, `foldlM_eq_error`: where a failure comes from.
* `foldlM_invariant`: a state that goes through a list. The invariant speaks of the elements seen.
-/

namespace NetImage

variable {ε α β σ : Type}

theorem bind_eq_ok {x : Except ε α} {f : α → Except ε β} {b : β} :
    x >>= f = .ok b ↔ ∃ a, x = .ok a ∧ f a = .ok b := by
  cases x with
  | error e => simp [bind, Except.bind]
  | ok a => simp [bind, Except.bind]

theorem bind_eq_error {x : Except ε α} {f : α → Except ε β} {e : ε} :
    x >>= f = .error e ↔ x = .error e ∨ ∃ a, x = .ok a ∧ f a = .error e := by
  cases x with
  | error e' => simp [bind, Except.bind]
  | ok a => simp [bind, Except.bind]

theorem seq_eq_ok {x : Except ε Unit} {y : Except ε β} {b : β} :
    (x >>= fun _ => y) = .ok b ↔ x = .ok () ∧ y = .ok b := by
  rw [bind_eq_ok]
  exact ⟨fun ⟨_, hx, hy⟩ => ⟨hx, hy⟩, fun ⟨hx, hy⟩ => ⟨(), hx, hy⟩⟩

theorem guard_eq_ok {p : Prop} [Decidable p] {e : ε} {x : Except ε α} {a : α} :
    (if p then throw e else x) = .ok a ↔ ¬p ∧ x = .ok a := by
  by_cases hp : p
  · rw [if_pos hp]
    constructor
    · intro h
      cases h
    · intro h
      exact absurd hp h.1
  · simp [hp]

theorem exists_of_isOk {x : Except ε α} (h : x.isOk = true) : ∃ a, x = .ok a := by
  cases x with
  | error e => cases h
  | ok a => exact ⟨a, rfl⟩

theorem map_eq_ok {x : Except ε α} {f : α → β} {b : β} :
    x.map f = .ok b ↔ ∃ a, x = .ok a ∧ f a = b := by
  cases x with
  | error e => simp [Except.map]
  | ok a => simp [Except.map]

theorem map_of_bind {γ : Type} (x : Except ε α) (f : α → Except ε β) (g : β → γ) :
    (x >>= f).map g = x >>= fun a => (f a).map g := by
  cases x <;> rfl

theorem mapError_eq_ok {ε' : Type} {x : Except ε α} {f : ε → ε'} {a : α} :
    x.mapError f = .ok a ↔ x = .ok a := by
  cases x with
  | error e => simp [Except.mapError]
  | ok a => simp [Except.mapError]

theorem exists_right_of_forall₂ {R : α → β → Prop} {xs : List α} {ys : List β}
    (h : List.Forall₂ R xs ys) {x : α} (hx : x ∈ xs) : ∃ y ∈ ys, R x y := by
  induction h with
  | nil => cases hx
  | cons hy _ ih =>
    rcases List.mem_cons.mp hx with rfl | hx
    · exact ⟨_, List.mem_cons_self, hy⟩
    · obtain ⟨y, hmem, hy⟩ := ih hx
      exact ⟨y, List.mem_cons_of_mem _ hmem, hy⟩

theorem exists_left_of_forall₂ {R : α → β → Prop} {xs : List α} {ys : List β}
    (h : List.Forall₂ R xs ys) {y : β} (hy : y ∈ ys) : ∃ x ∈ xs, R x y :=
  exists_right_of_forall₂ (R := fun y x => R x y) (List.Forall₂.flip h) hy

theorem mapM_eq_ok {f : α → Except ε β} {xs : List α} {ys : List β} :
    xs.mapM f = .ok ys ↔ List.Forall₂ (fun x y => f x = .ok y) xs ys := by
  induction xs generalizing ys with
  | nil =>
    simp only [List.mapM_nil, List.forall₂_nil_left_iff]
    exact ⟨fun h => by cases h; rfl, fun h => by rw [h]; rfl⟩
  | cons x xs ih =>
    rw [List.mapM_cons, bind_eq_ok]
    constructor
    · rintro ⟨y, hy, h⟩
      obtain ⟨ys', hys, h⟩ := bind_eq_ok.mp h
      cases h
      exact .cons hy (ih.mp hys)
    · intro h
      cases h with
      | cons hy hys => exact ⟨_, hy, bind_eq_ok.mpr ⟨_, ih.mpr hys, rfl⟩⟩

theorem forM_eq_ok {f : α → Except ε Unit} {xs : List α} :
    xs.forM f = .ok () ↔ ∀ x ∈ xs, f x = .ok () := by
  induction xs with
  | nil => simp [pure, Except.pure]
  | cons x xs ih =>
    rw [show (x :: xs).forM f = (f x >>= fun _ => xs.forM f) from rfl, bind_eq_ok,
      List.forall_mem_cons]
    constructor
    · rintro ⟨⟨⟩, hx, h⟩
      exact ⟨hx, ih.mp h⟩
    · rintro ⟨hx, h⟩
      exact ⟨(), hx, ih.mpr h⟩

theorem forM_eq_error {f : α → Except ε Unit} {xs : List α} {e : ε} (h : xs.forM f = .error e) :
    ∃ before x after, xs = before ++ x :: after ∧ (∀ y ∈ before, f y = .ok ()) ∧
      f x = .error e := by
  induction xs with
  | nil => cases h
  | cons x xs ih =>
    rcases bind_eq_error.mp (show (f x >>= fun _ => xs.forM f) = .error e from h) with
      hx | ⟨⟨⟩, hx, h⟩
    · exact ⟨[], x, xs, rfl, by simp, hx⟩
    · obtain ⟨before, y, after, rfl, hbefore, hy⟩ := ih h
      exact ⟨x :: before, y, after, rfl, List.forall_mem_cons.mpr ⟨hx, hbefore⟩, hy⟩

theorem mapM_eq_error {f : α → Except ε β} {xs : List α} {e : ε} (h : xs.mapM f = .error e) :
    ∃ before x after, xs = before ++ x :: after ∧ (∀ y ∈ before, ∃ z, f y = .ok z) ∧
      f x = .error e := by
  induction xs with
  | nil => cases h
  | cons x xs ih =>
    rw [List.mapM_cons] at h
    rcases bind_eq_error.mp h with hx | ⟨y, hy, h⟩
    · exact ⟨[], x, xs, rfl, by simp, hx⟩
    · rcases bind_eq_error.mp h with h | ⟨ys, -, h⟩
      · obtain ⟨before, x', after, rfl, hbefore, hx'⟩ := ih h
        exact ⟨x :: before, x', after, rfl, List.forall_mem_cons.mpr ⟨⟨y, hy⟩, hbefore⟩, hx'⟩
      · cases h

theorem mapM_of_error {f : α → Except ε β} {before after : List α} {x : α} {e : ε}
    (hbefore : ∀ y ∈ before, ∃ z, f y = .ok z) (hx : f x = .error e) :
    (before ++ x :: after).mapM f = .error e := by
  induction before with
  | nil => rw [List.nil_append, List.mapM_cons, hx]; rfl
  | cons y before ih =>
    rw [List.forall_mem_cons] at hbefore
    obtain ⟨z, hz⟩ := hbefore.1
    rw [List.cons_append, List.mapM_cons, hz, bind_eq_error]
    exact .inr ⟨z, rfl, bind_eq_error.mpr (.inl (ih hbefore.2))⟩

theorem mapM_eq_error_iff {f : α → Except ε β} {xs : List α} {e : ε} : xs.mapM f = .error e ↔
    ∃ before x after, xs = before ++ x :: after ∧ (∀ y ∈ before, ∃ z, f y = .ok z) ∧
      f x = .error e := by
  constructor
  · exact mapM_eq_error
  · rintro ⟨before, x, after, rfl, hbefore, hx⟩
    exact mapM_of_error hbefore hx

theorem exists_mapM_iff {f : α → Except ε β} {xs : List α} :
    (∃ ys, xs.mapM f = .ok ys) ↔ ∀ x ∈ xs, ∃ y, f x = .ok y := by
  constructor
  · rintro ⟨ys, hys⟩ x hx
    obtain ⟨y, -, hy⟩ := exists_right_of_forall₂ (mapM_eq_ok.mp hys) hx
    exact ⟨y, hy⟩
  · intro h
    cases hrun : xs.mapM f with
    | ok ys => exact ⟨ys, rfl⟩
    | error e =>
      obtain ⟨before, x, after, rfl, -, hx⟩ := mapM_eq_error hrun
      obtain ⟨y, hy⟩ := h x (by simp)
      rw [hx] at hy
      cases hy

theorem foldlM_eq_error {f : σ → α → Except ε σ} {xs : List α} {s : σ} {e : ε}
    (h : xs.foldlM f s = .error e) :
    ∃ before x after s', xs = before ++ x :: after ∧ before.foldlM f s = .ok s' ∧
      f s' x = .error e := by
  induction xs generalizing s with
  | nil => cases h
  | cons x xs ih =>
    rw [List.foldlM_cons] at h
    rcases bind_eq_error.mp h with hx | ⟨s', hs', h⟩
    · exact ⟨[], x, xs, s, rfl, rfl, hx⟩
    · obtain ⟨before, x', after, s'', rfl, hbefore, hx'⟩ := ih h
      refine ⟨x :: before, x', after, s'', rfl, ?_, hx'⟩
      rw [List.foldlM_cons]
      exact bind_eq_ok.mpr ⟨s', hs', hbefore⟩

/-- What holds of no elements and is kept by every step holds of all elements at the end. -/
theorem foldlM_invariant {f : σ → α → Except ε σ} {P : List α → σ → Prop}
    (hstep : ∀ seen a s s', P seen s → f s a = .ok s' → P (seen ++ [a]) s') {xs : List α}
    {s t : σ} (h₀ : P [] s) (h : xs.foldlM f s = .ok t) : P xs t := by
  -- generalized over the elements seen so far, so that the induction is on those still to come
  suffices ∀ xs seen s, P seen s → xs.foldlM f s = .ok t → P (seen ++ xs) t by
    simpa using this xs [] s h₀ h
  intro xs
  induction xs with
  | nil =>
    intro seen s hs h
    cases h
    simpa using hs
  | cons a xs ih =>
    intro seen s hs h
    rw [List.foldlM_cons] at h
    obtain ⟨s', ha, h⟩ := bind_eq_ok.mp h
    simpa using ih (seen ++ [a]) s' (hstep seen a s s' hs ha) h

end NetImage
