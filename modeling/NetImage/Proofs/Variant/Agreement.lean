import Mathlib.Data.List.Forall2
import Mathlib.Data.List.Nodup
import Mathlib.Logic.Relator
import Mathlib.Tactic
import NetImage.Proofs.Build.Sources

/-!
# NetImage.Proofs.Variant.Agreement

Two runs that are compared. They agree if both fail, for whatever reasons, or both succeed with
related results. A run agrees with another if each of its steps does.

* `Agree`, `Agree.bind`: one computation after another.
* `agree_mapM`, `agree_forM`, `agree_foldlM`: passes over lists with related elements.
* `TablesAlike`: tables by name, where the two runs may use different names.
-/

namespace NetImage

variable {ε ε' α β α' β' σ τ : Type}

/-- Both computations fail, or both succeed with related results. -/
inductive Agree (R : α → β → Prop) : Except ε α → Except ε' β → Prop
  | ok {a : α} {b : β} (h : R a b) : Agree R (.ok a) (.ok b)
  | error (e : ε) (e' : ε') : Agree R (.error e) (.error e')

namespace Agree

variable {R : α → β → Prop} {S : α' → β' → Prop} {x : Except ε α} {y : Except ε' β}

theorem refl {R : α → α → Prop} (hR : ∀ a, R a a) (x : Except ε α) : Agree R x x := by
  cases x with
  | error e => exact .error e e
  | ok a => exact .ok (hR a)

theorem imp {R' : α → β → Prop} (h : Agree R x y) (hR : ∀ a b, R a b → R' a b) : Agree R' x y := by
  cases h with
  | ok h => exact .ok (hR _ _ h)
  | error e e' => exact .error e e'

theorem bind {f : α → Except ε α'} {g : β → Except ε' β'} (h : Agree R x y)
    (hfg : ∀ a b, R a b → Agree S (f a) (g b)) : Agree S (x >>= f) (y >>= g) := by
  cases h with
  | ok h => exact hfg _ _ h
  | error e e' => exact .error e e'

theorem map {f : α → α'} {g : β → β'} (h : Agree R x y) (hfg : ∀ a b, R a b → S (f a) (g b)) :
    Agree S (x.map f) (y.map g) := by
  cases h with
  | ok h => exact .ok (hfg _ _ h)
  | error e e' => exact .error e e'

theorem mapError {δ δ' : Type} (f : ε → δ) (g : ε' → δ') (h : Agree R x y) :
    Agree R (x.mapError f) (y.mapError g) := by
  cases h with
  | ok h => exact .ok h
  | error e e' => exact .error _ _

theorem ite {p q : Prop} [Decidable p] [Decidable q] {x' : Except ε α} {y' : Except ε' β}
    (hpq : p ↔ q) (h : Agree R x y) (h' : Agree R x' y') :
    Agree R (if p then x else x') (if q then y else y') := by
  by_cases hp : p
  · rw [if_pos hp, if_pos (hpq.mp hp)]
    exact h
  · rw [if_neg hp, if_neg (mt hpq.mpr hp)]
    exact h'

/-- It is enough that each run leads to the other one. -/
theorem of_ok (h : ∀ a, x = .ok a → ∃ b, y = .ok b ∧ R a b) (h' : ∀ b, y = .ok b → ∃ a, x = .ok a) :
    Agree R x y := by
  cases hx : x with
  | ok a =>
    obtain ⟨b, rfl, hab⟩ := h a hx
    exact .ok hab
  | error e =>
    cases hy : y with
    | error e' => exact .error e e'
    | ok b =>
      obtain ⟨a, ha⟩ := h' b hy
      rw [hx] at ha
      cases ha

/-- If results are related by a function, the outcome of one run is that function of the other's. -/
theorem toOption_eq {f : α → β} (h : Agree (fun a b => b = f a) x y) :
    y.toOption = x.toOption.map f := by
  cases h with
  | ok h => exact congrArg some h
  | error e e' => rfl

end Agree

/-! ## Passes -/

section Passes

variable {R : α → β → Prop} {S : σ → τ → Prop} {xs : List α} {ys : List β}

theorem agree_mapM {f : α → Except ε σ} {g : β → Except ε' τ} (h : List.Forall₂ R xs ys)
    (hfg : ∀ x y, R x y → Agree S (f x) (g y)) :
    Agree (List.Forall₂ S) (xs.mapM f) (ys.mapM g) := by
  induction h with
  | nil => exact .ok .nil
  | cons hxy _ ih =>
    rw [List.mapM_cons, List.mapM_cons]
    exact (hfg _ _ hxy).bind fun a b hab => ih.bind fun as bs hs => .ok (.cons hab hs)

theorem agree_foldlM {f : σ → α → Except ε σ} {g : τ → β → Except ε' τ}
    (h : List.Forall₂ R xs ys) (hfg : ∀ s t x y, S s t → R x y → Agree S (f s x) (g t y)) {s : σ}
    {t : τ} (hst : S s t) : Agree S (xs.foldlM f s) (ys.foldlM g t) := by
  induction h generalizing s t with
  | nil => exact .ok hst
  | cons hxy _ ih =>
    rw [List.foldlM_cons, List.foldlM_cons]
    exact (hfg s t _ _ hst hxy).bind fun s t hst => ih hst

theorem agree_forM {f : α → Except ε Unit} {g : β → Except ε' Unit} (h : List.Forall₂ R xs ys)
    (hfg : ∀ x y, R x y → Agree Eq (f x) (g y)) : Agree Eq (xs.forM f) (ys.forM g) := by
  induction h with
  | nil => exact .ok rfl
  | cons hxy _ ih => exact (hfg _ _ hxy).bind fun _ _ _ => ih

theorem forall₂_zipIdx (h : List.Forall₂ R xs ys) (k : Nat) :
    List.Forall₂ (fun x y => R x.1 y.1 ∧ x.2 = y.2) (xs.zipIdx k) (ys.zipIdx k) := by
  induction h generalizing k with
  | nil => exact .nil
  | cons hxy _ ih => exact .cons ⟨hxy, rfl⟩ (ih (k + 1))

theorem forall₂_zip (h : List.Forall₂ R xs ys) (zs : List σ) :
    List.Forall₂ (fun x y => R x.1 y.1 ∧ x.2 = y.2) (xs.zip zs) (ys.zip zs) := by
  induction h generalizing zs with
  | nil => exact .nil
  | cons hxy _ ih =>
    cases zs with
    | nil => exact .nil
    | cons z zs => exact .cons ⟨hxy, rfl⟩ (ih zs)

theorem map_eq_of_forall₂ {f : α → σ} {g : β → σ} (h : List.Forall₂ R xs ys)
    (hfg : ∀ x y, R x y → f x = g y) : xs.map f = ys.map g := by
  rw [← List.forall₂_eq_eq_eq]
  exact List.rel_map (fun x y hxy => hfg x y hxy) h

theorem zipWith_eq_of_forall₂ {γ : Type} {f : α → σ → γ} {g : β → τ → γ} (h : List.Forall₂ R xs ys)
    {zs : List σ} {ws : List τ} (h' : List.Forall₂ S zs ws)
    (hfg : ∀ x y z w, R x y → S z w → f x z = g y w) :
    List.zipWith f xs zs = List.zipWith g ys ws := by
  induction h generalizing zs ws with
  | nil => rfl
  | cons hxy _ ih =>
    cases h' with
    | nil => rfl
    | cons hzw h' => rw [List.zipWith_cons_cons, List.zipWith_cons_cons, hfg _ _ _ _ hxy hzw, ih h']

end Passes

/-! ## Tables by name -/

/-- Under names that stand for each other the tables have related values, or none. -/
def TablesAlike (N : Bytes → Bytes → Prop) (V : α → β → Prop) (m : Std.TreeMap Bytes α)
    (m' : Std.TreeMap Bytes β) : Prop :=
  ∀ ⦃t t' : Bytes⦄, N t t' → Option.Rel V m[t]? m'[t']?

namespace TablesAlike

variable {N : Bytes → Bytes → Prop} {V : α → β → Prop} {m : Std.TreeMap Bytes α}
  {m' : Std.TreeMap Bytes β}

theorem empty : TablesAlike N V (∅ : Std.TreeMap Bytes α) (∅ : Std.TreeMap Bytes β) := by
  intro t t' _
  rw [Std.TreeMap.getElem?_emptyc, Std.TreeMap.getElem?_emptyc]
  exact .none

theorem insert (hN : Relator.BiUnique N) (h : TablesAlike N V m m') {k k' : Bytes} (hk : N k k')
    {v : α} {v' : β} (hv : V v v') : TablesAlike N V (m.insert k v) (m'.insert k' v') := by
  intro t t' ht
  rw [getElem?_insert_name, getElem?_insert_name]
  have hsame : k = t ↔ k' = t' := Relator.rel_eq hN hk ht
  by_cases hkt : k = t
  · rw [if_pos hkt, if_pos (hsame.mp hkt)]
    exact .some hv
  · rw [if_neg hkt, if_neg (mt hsame.mpr hkt)]
    exact h ht

theorem lookup (h : TablesAlike N V m m') {t t' : Bytes} (ht : N t t') :
    (m[t]? = none ∧ m'[t']? = none) ∨ ∃ v v', m[t]? = some v ∧ m'[t']? = some v' ∧ V v v' := by
  have hrel := h ht
  generalize m[t]? = found at hrel
  generalize m'[t']? = found' at hrel
  cases hrel with
  | none => exact .inl ⟨rfl, rfl⟩
  | some hv => exact .inr ⟨_, _, rfl, rfl, hv⟩

theorem contains_eq (h : TablesAlike N V m m') {t t' : Bytes} (ht : N t t') :
    m.contains t = m'.contains t' := by
  rw [Std.TreeMap.contains_eq_isSome_getElem?, Std.TreeMap.contains_eq_isSome_getElem?]
  obtain ⟨hm, hm'⟩ | ⟨v, v', hm, hm', -⟩ := h.lookup ht
  · rw [hm, hm']
    rfl
  · rw [hm, hm']
    rfl

end TablesAlike

end NetImage
