import NetImage.Build.Sources
import NetImage.Proofs.Passes
import Std.Data.TreeMap.Lemmas
import Std.Data.TreeSet.Lemmas

/-!
# NetImage.Proofs.Build.Sources

Sorting the declarations of a graph keeps all of them and their order, and names are unique within
the inputs and within the constants.

* `getElem?_table`: a table made of the elements of a list finds the elements by their names.
* `contains_names`: a set made of the names of a list has just these names.
* `Sources.ofDecls_eq_ok`: what sorting gives, and `Sources.ofDecls_eq_ok_iff`: when it does.
-/

namespace NetImage

/-! ## Tables by name -/

section Names

variable {α β : Type}

theorem getElem?_insert_name (m : Std.TreeMap Bytes β) (k a : Bytes) (v : β) :
    (m.insert k v)[a]? = if k = a then some v else m[a]? := by
  simp [Std.TreeMap.getElem?_insert]

theorem contains_insert_name (s : Std.TreeSet Bytes) (k a : Bytes) :
    (s.insert k).contains a = true ↔ k = a ∨ s.contains a = true := by
  simp [Std.TreeSet.contains_insert]

theorem contains_foldl {f : Std.TreeSet Bytes → α → Std.TreeSet Bytes} {P : α → Prop} {a : Bytes}
    (hf : ∀ s x, (f s x).contains a = true ↔ P x ∨ s.contains a = true) (xs : List α)
    (s : Std.TreeSet Bytes) :
    (xs.foldl f s).contains a = true ↔ (∃ x ∈ xs, P x) ∨ s.contains a = true := by
  induction xs generalizing s with
  | nil => simp
  | cons x xs ih =>
    rw [List.foldl_cons, ih, hf, List.exists_mem_cons_iff, or_assoc, or_left_comm]

theorem contains_names (name : α → Bytes) (xs : List α) (a : Bytes) :
    (xs.foldl (fun s x => s.insert (name x)) (∅ : Std.TreeSet Bytes)).contains a = true ↔
      a ∈ xs.map name := by
  rw [contains_foldl (fun s x => contains_insert_name s (name x) a), List.mem_map]
  simp

theorem getElem?_foldl_insert {name : α → Bytes} {xs : List α} (h : (xs.map name).Nodup)
    (m : Std.TreeMap Bytes α) {a : Bytes} {x : α} :
    (xs.foldl (fun m x => m.insert (name x) x) m)[a]? = some x ↔
      (x ∈ xs ∧ name x = a) ∨ (a ∉ xs.map name ∧ m[a]? = some x) := by
  induction xs generalizing m with
  | nil => simp
  | cons y xs ih =>
    rw [List.map_cons, List.nodup_cons] at h
    rw [List.foldl_cons, ih h.2, getElem?_insert_name, List.map_cons, List.mem_cons, List.mem_cons]
    by_cases hy : name y = a
    · subst hy
      rw [if_pos rfl]
      constructor
      · rintro (⟨hx, hname⟩ | ⟨_, hx⟩)
        · exact absurd (hname ▸ List.mem_map_of_mem hx) h.1
        · exact .inl ⟨.inl (Option.some.inj hx).symm, congrArg name (Option.some.inj hx).symm⟩
      · rintro (⟨rfl | hx, hname⟩ | ⟨hne, _⟩)
        · exact .inr ⟨h.1, rfl⟩
        · exact .inl ⟨hx, hname⟩
        · exact absurd (.inl rfl) hne
    · rw [if_neg hy]
      constructor
      · rintro (⟨hx, hname⟩ | ⟨ha, hx⟩)
        · exact .inl ⟨.inr hx, hname⟩
        · refine .inr ⟨?_, hx⟩
          rintro (rfl | hmem)
          · exact hy rfl
          · exact ha hmem
      · rintro (⟨rfl | hx, hname⟩ | ⟨ha, hx⟩)
        · exact absurd hname hy
        · exact .inl ⟨hx, hname⟩
        · exact .inr ⟨fun hmem => ha (.inr hmem), hx⟩

theorem getElem?_table {name : α → Bytes} {xs : List α} (h : (xs.map name).Nodup) {a : Bytes}
    {x : α} :
    (xs.foldl (fun m x => m.insert (name x) x) (∅ : Std.TreeMap Bytes α))[a]? = some x ↔
      x ∈ xs ∧ name x = a := by
  simp [getElem?_foldl_insert h]

end Names

/-! ## Sorting -/

def Decl.input? : Decl → Option InputDecl
  | .input d => some d
  | _ => none

def Decl.const? : Decl → Option ConstDecl
  | .const d => some d
  | _ => none

def Decl.op? : Decl → Option OpDecl
  | .op d => some d
  | _ => none

namespace Sources

/-- The declarations by kind, in order. -/
def byKind (decls : List Decl) : Sources :=
  ⟨decls.filterMap Decl.input?, decls.filterMap Decl.const?, decls.filterMap Decl.op?⟩

/-- No two inputs and no two constants have one name. -/
structure Named (g : Sources) : Prop where
  inputs : (g.inputs.map InputDecl.tensor).Nodup
  consts : (g.consts.map ConstDecl.tensor).Nodup

/-- What sorting keeps. The declarations are newest first, and the lines are those of the names. -/
structure Sorting.Inv (seen : List Decl) (s : Sorting) : Prop where
  inputs : s.inputs.reverse = seen.filterMap Decl.input?
  consts : s.consts.reverse = seen.filterMap Decl.const?
  ops : s.ops.reverse = seen.filterMap Decl.op?
  inputNames : (s.inputs.map InputDecl.tensor).Nodup
  constNames : (s.consts.map ConstDecl.tensor).Nodup
  inputLines : ∀ t, s.inputLines[t]? = none → t ∉ s.inputs.map InputDecl.tensor
  constLines : ∀ t, s.constLines[t]? = none → t ∉ s.consts.map ConstDecl.tensor

/-- The lines of the names stay those of the names when one more is seen. -/
theorem Sorting.lines_insert {names : List Bytes} {lines : Std.TreeMap Bytes Int}
    (h : ∀ t, lines[t]? = none → t ∉ names) (name : Bytes) (line : Int) :
    ∀ t, (lines.insert name line)[t]? = none → t ∉ name :: names := by
  intro t ht
  rw [getElem?_insert_name] at ht
  split at ht
  · cases ht
  · rename_i hne
    rintro (_ | ⟨_, hmem⟩)
    · exact hne rfl
    · exact h t ht hmem

theorem Sorting.inv_step {seen : List Decl} {s s' : Sorting} {d : Decl} (hs : s.Inv seen)
    (h : s.step d = .ok s') : s'.Inv (seen ++ [d]) := by
  obtain ⟨hinputs, hconsts, hops, hin, hcn, hil, hcl⟩ := hs
  cases d with
  | input d =>
    simp only [step] at h
    split at h
    · cases h
    · rename_i hnew
      cases h
      refine ⟨?_, ?_, ?_, ?_, hcn, lines_insert hil d.tensor d.line, hcl⟩
      · simp [List.filterMap_append, Decl.input?, hinputs]
      · simp [List.filterMap_append, Decl.const?, hconsts]
      · simp [List.filterMap_append, Decl.op?, hops]
      · exact List.nodup_cons.mpr ⟨hil d.tensor hnew, hin⟩
  | const d =>
    simp only [step] at h
    split at h
    · cases h
    · rename_i hnew
      cases h
      refine ⟨?_, ?_, ?_, hin, ?_, hil, lines_insert hcl d.tensor d.line⟩
      · simp [List.filterMap_append, Decl.input?, hinputs]
      · simp [List.filterMap_append, Decl.const?, hconsts]
      · simp [List.filterMap_append, Decl.op?, hops]
      · exact List.nodup_cons.mpr ⟨hcl d.tensor hnew, hcn⟩
  | op d =>
    cases h
    refine ⟨?_, ?_, ?_, hin, hcn, hil, hcl⟩
    · simp [List.filterMap_append, Decl.input?, hinputs]
    · simp [List.filterMap_append, Decl.const?, hconsts]
    · simp [List.filterMap_append, Decl.op?, hops]

theorem Sorting.inv_of_foldlM {decls : List Decl} {s : Sorting}
    (h : decls.foldlM Sorting.step ⟨[], [], [], ∅, ∅⟩ = .ok s) : s.Inv decls := by
  refine foldlM_invariant (P := fun seen (s : Sorting) => s.Inv seen) ?_ ?_ h
  · intro seen d s s' hs hstep
    exact Sorting.inv_step hs hstep
  · exact ⟨rfl, rfl, rfl, List.nodup_nil, List.nodup_nil, by simp, by simp⟩

theorem ofDecls_eq_ok {decls : List Decl} {g : Sources} (h : ofDecls decls = .ok g) :
    g = byKind decls ∧ g.Named := by
  unfold ofDecls at h
  obtain ⟨s, hrun, h⟩ := bind_eq_ok.mp h
  have hs := Sorting.inv_of_foldlM hrun
  obtain ⟨-, h⟩ := guard_eq_ok.mp h
  cases h
  refine ⟨?_, ?_, ?_⟩
  · rw [hs.inputs, hs.consts, hs.ops, byKind]
  · rw [List.map_reverse]
    exact List.nodup_reverse.mpr hs.inputNames
  · rw [List.map_reverse]
    exact List.nodup_reverse.mpr hs.constNames

/-- Sorting only looks for names among those seen before. -/
structure Sorting.Looks (s : Sorting) : Prop where
  inputs : ∀ t, t ∉ s.inputs.map InputDecl.tensor → s.inputLines[t]? = none
  consts : ∀ t, t ∉ s.consts.map ConstDecl.tensor → s.constLines[t]? = none

theorem Sorting.none_insert {names : List Bytes} {lines : Std.TreeMap Bytes Int}
    (h : ∀ t, t ∉ names → lines[t]? = none) (name : Bytes) (line : Int) :
    ∀ t, t ∉ name :: names → (lines.insert name line)[t]? = none := by
  intro t ht
  rw [List.mem_cons, not_or] at ht
  rw [getElem?_insert_name, if_neg (Ne.symm ht.1), h t ht.2]

/-- If the names to come are new, sorting goes through. -/
theorem Sorting.exists_foldlM {decls : List Decl} {s : Sorting} (hs : s.Looks)
    (hi : ((decls.filterMap Decl.input?).map InputDecl.tensor ++
      s.inputs.map InputDecl.tensor).Nodup)
    (hc : ((decls.filterMap Decl.const?).map ConstDecl.tensor ++
      s.consts.map ConstDecl.tensor).Nodup) :
    ∃ s', decls.foldlM Sorting.step s = .ok s' := by
  induction decls generalizing s with
  | nil => exact ⟨s, rfl⟩
  | cons d decls ih =>
    rw [List.foldlM_cons]
    cases d with
    | input d =>
      simp only [List.filterMap_cons, Decl.input?, Decl.const?, List.map_cons,
        List.cons_append] at hi hc
      have hnew := hs.inputs d.tensor fun hmem => (List.nodup_cons.mp hi).1 (by simp [hmem])
      simp only [step, hnew]
      exact ih ⟨none_insert hs.inputs d.tensor d.line, hs.consts⟩ (List.nodup_middle.mpr hi) hc
    | const d =>
      simp only [List.filterMap_cons, Decl.input?, Decl.const?, List.map_cons,
        List.cons_append] at hi hc
      have hnew := hs.consts d.tensor fun hmem => (List.nodup_cons.mp hc).1 (by simp [hmem])
      simp only [step, hnew]
      exact ih ⟨hs.inputs, none_insert hs.consts d.tensor d.line⟩ hi (List.nodup_middle.mpr hc)
    | op d => exact ih ⟨hs.inputs, hs.consts⟩ hi hc

theorem ofDecls_eq_ok_iff {decls : List Decl} {g : Sources} :
    ofDecls decls = .ok g ↔ g = byKind decls ∧ g.Named ∧ g.ops ≠ [] := by
  constructor
  · intro h
    obtain ⟨hkind, hnamed⟩ := ofDecls_eq_ok h
    refine ⟨hkind, hnamed, ?_⟩
    unfold ofDecls at h
    obtain ⟨s, -, h⟩ := bind_eq_ok.mp h
    obtain ⟨hops, h⟩ := guard_eq_ok.mp h
    cases h
    simpa using hops
  · rintro ⟨rfl, hnamed, hops⟩
    obtain ⟨s, hrun⟩ : ∃ s, decls.foldlM Sorting.step ⟨[], [], [], ∅, ∅⟩ = .ok s :=
      Sorting.exists_foldlM ⟨by simp, by simp⟩ (by simpa [byKind] using hnamed.inputs)
        (by simpa [byKind] using hnamed.consts)
    have hs := Sorting.inv_of_foldlM hrun
    have hne : ¬ s.ops.isEmpty = true := by
      intro hempty
      refine hops ?_
      rw [byKind, ← hs.ops, List.isEmpty_iff.mp hempty]
      rfl
    unfold ofDecls
    rw [hrun]
    refine guard_eq_ok.mpr ⟨hne, ?_⟩
    rw [hs.inputs, hs.consts, hs.ops]
    rfl

theorem mem_byKind_inputs {decls : List Decl} {d : InputDecl} :
    d ∈ (byKind decls).inputs ↔ Decl.input d ∈ decls := by
  simp only [byKind, List.mem_filterMap]
  constructor
  · rintro ⟨e, he, hd⟩
    cases e <;> cases hd
    exact he
  · intro h
    exact ⟨_, h, rfl⟩

theorem mem_byKind_consts {decls : List Decl} {c : ConstDecl} :
    c ∈ (byKind decls).consts ↔ Decl.const c ∈ decls := by
  simp only [byKind, List.mem_filterMap]
  constructor
  · rintro ⟨e, he, hc⟩
    cases e <;> cases hc
    exact he
  · intro h
    exact ⟨_, h, rfl⟩

theorem mem_byKind_ops {decls : List Decl} {op : OpDecl} :
    op ∈ (byKind decls).ops ↔ Decl.op op ∈ decls := by
  simp only [byKind, List.mem_filterMap]
  constructor
  · rintro ⟨e, he, hop⟩
    cases e <;> cases hop
    exact he
  · intro h
    exact ⟨_, h, rfl⟩

end Sources
end NetImage
