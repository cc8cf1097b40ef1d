import NetImage.Build.Numbering
import NetImage.Proofs.Build.Steps

/-!
# NetImage.Proofs.Build.Numbering

Ids are places in one list without repetition: the names of the parameters, then the outputs of the
steps. Reading a tensor means reading the id at which its name stands.

* `map_tensor_paramSources`, `stored_mem_paramSources`: the parameters and their order.
* `Numbering.Lists`: the tensors known are those of a list, each with its place.
* `Numbering.InOrder`: every step reads only what stands before it.
* `Numbering.step_keeps`: what one step adds.
* `Numbering.inv_of_foldlM`, `Numbering.ofSteps_eq_ok`: some steps, and the numbered graph.
-/

namespace NetImage

def ParamSource.tensor : ParamSource → Bytes
  | .fed i => i.tensor
  | .stored c => c.tensor

namespace Numbering

/-- The names of the parameters by id: the inputs, then the constants that share no input's name. -/
def paramNames (inputs : List InputDecl) (consts : List ConstDecl) : List Bytes :=
  inputs.map InputDecl.tensor
    ++ (consts.map ConstDecl.tensor).filter fun t => !(inputs.map InputDecl.tensor).contains t

variable {inputs : List InputDecl} {consts : List ConstDecl}

theorem nodup_paramNames (hi : (inputs.map InputDecl.tensor).Nodup)
    (hc : (consts.map ConstDecl.tensor).Nodup) : (paramNames inputs consts).Nodup := by
  refine List.Nodup.append hi (hc.filter _) ?_
  intro t ht hfree
  have := (List.mem_filter.mp hfree).2
  exact absurd ht (by simpa using this)

theorem map_tensor_paramSources (hc : (consts.map ConstDecl.tensor).Nodup) :
    (paramSources inputs consts).map ParamSource.tensor = paramNames inputs consts := by
  unfold paramSources paramNames
  rw [List.map_append, List.map_map, List.map_map, List.filter_map]
  congr 1
  · refine List.map_congr_left ?_
    intro i _
    simp only [Function.comp_apply]
    split
    · rename_i c hfound
      exact ((getElem?_table hc).mp hfound).2
    · rfl
  · rw [show ParamSource.tensor ∘ ParamSource.stored = ConstDecl.tensor from rfl]
    congr 1
    refine List.filter_congr ?_
    intro c _
    rw [Bool.eq_iff_iff, Bool.not_eq_true', ← Bool.not_eq_true, contains_names]
    simp

theorem stored_mem_paramSources (hc : (consts.map ConstDecl.tensor).Nodup) {c : ConstDecl} :
    .stored c ∈ paramSources inputs consts ↔ c ∈ consts := by
  unfold paramSources
  rw [List.mem_append, List.mem_map, List.mem_map]
  constructor
  · rintro (⟨i, _, h⟩ | ⟨c', hc', h⟩)
    · split at h
      · rename_i hfound
        cases h
        exact ((getElem?_table hc).mp hfound).1
      · cases h
    · cases h
      exact List.mem_of_mem_filter hc'
  · intro hmem
    by_cases hname : c.tensor ∈ inputs.map InputDecl.tensor
    · obtain ⟨i, hi, htensor⟩ := List.mem_map.mp hname
      refine .inl ⟨i, hi, ?_⟩
      rw [(getElem?_table hc).mpr ⟨hmem, htensor.symm⟩]
    · refine .inr ⟨c, List.mem_filter.mpr ⟨hmem, ?_⟩, rfl⟩
      rw [Bool.not_eq_true', ← Bool.not_eq_true, contains_names]
      exact hname

theorem fed_mem_paramSources {i : InputDecl} (h : .fed i ∈ paramSources inputs consts) :
    i ∈ inputs := by
  unfold paramSources at h
  rw [List.mem_append, List.mem_map, List.mem_map] at h
  rcases h with ⟨i', hi, h⟩ | ⟨c, _, h⟩
  · split at h
    · cases h
    · cases h
      exact hi
  · cases h

/-! ## Known tensors -/

/-- The tensors known are those of a list, each with its place as id. -/
structure Lists (m : Known) (names : List Bytes) : Prop where
  size : m.size = names.length
  ids : ∀ (t : Bytes) (id : Nat), (∃ line : Int, m[t]? = some (id, line)) ↔ names[id]? = some t

theorem lists_empty : Lists ∅ [] := ⟨rfl, by simp⟩

theorem Lists.getElem?_eq_none {m : Known} {names : List Bytes} (h : Lists m names)
    {t : Bytes} : m[t]? = none ↔ t ∉ names := by
  rw [Option.eq_none_iff_forall_ne_some]
  constructor
  · intro hnone hmem
    obtain ⟨id, hid⟩ := List.mem_iff_getElem?.mp hmem
    obtain ⟨line, hline⟩ := (h.ids t id).mpr hid
    exact hnone _ hline
  · rintro hnew ⟨id, line⟩ hline
    exact hnew (List.mem_of_getElem? ((h.ids t id).mp ⟨line, hline⟩))

/-- The last place of a list with one more element. -/
theorem getElem?_concat_eq_some {α : Type} {xs : List α} {x y : α} {id : Nat} :
    (xs ++ [x])[id]? = some y ↔ xs[id]? = some y ∨ (id = xs.length ∧ x = y) := by
  rcases Nat.lt_trichotomy id xs.length with hid | hid | hid
  · rw [List.getElem?_append_left hid]
    simp [hid.ne]
  · simp [hid]
  · rw [List.getElem?_append_right hid.le, List.getElem?_eq_none hid.le]
    simp [hid.ne', Nat.sub_ne_zero_of_lt hid]

theorem Lists.insert {m : Known} {names : List Bytes} (h : Lists m names) {t : Bytes}
    (hnew : t ∉ names) (line : Int) :
    Lists (m.insert t (names.length, line)) (names ++ [t]) := by
  have hnone := h.getElem?_eq_none.mpr hnew
  refine ⟨?_, ?_⟩
  · have hcontains : m.contains t = false := by
      rw [Std.TreeMap.contains_eq_isSome_getElem?, hnone]
      rfl
    rw [Std.TreeMap.size_insert, if_neg (by simp [hcontains]), h.size, List.length_append]
    rfl
  · intro t' id
    rw [getElem?_insert_name, getElem?_concat_eq_some]
    by_cases ht : t = t'
    · subst ht
      have hno : names[id]? ≠ some t := fun hid => hnew (List.mem_of_getElem? hid)
      simp [hno, eq_comm]
    · rw [if_neg ht, h.ids t' id]
      simp [ht]

theorem lists_inputs {m : Known} {names : List Bytes} (h : Lists m names) (inputs : List InputDecl)
    (hnew : (names ++ inputs.map InputDecl.tensor).Nodup) :
    Lists (inputs.foldl (fun (m : Known) i => m.insert i.tensor (m.size, i.line)) m)
      (names ++ inputs.map InputDecl.tensor) := by
  induction inputs generalizing m names with
  | nil => simpa using h
  | cons i inputs ih =>
    rw [List.map_cons, List.append_cons] at hnew ⊢
    rw [List.foldl_cons, h.size]
    refine ih (h.insert ?_ i.line) hnew
    have hnames := hnew.of_append_left
    rw [List.nodup_append] at hnames
    intro hmem
    exact hnames.2.2 _ hmem _ (List.mem_singleton_self _) rfl

theorem lists_consts {m : Known} {names base : List Bytes} (h : Lists m names)
    (consts : List ConstDecl) (hc : (consts.map ConstDecl.tensor).Nodup)
    (hbase : ∀ c ∈ consts, c.tensor ∈ names ↔ c.tensor ∈ base) :
    Lists
      (consts.foldl (fun (m : Known) c =>
        if m.contains c.tensor then m else m.insert c.tensor (m.size, c.line)) m)
      (names ++ (consts.map ConstDecl.tensor).filter fun t => !base.contains t) := by
  -- `names` grows with every constant that is new, while `base` stays the inputs
  induction consts generalizing m names with
  | nil => simpa using h
  | cons c consts ih =>
    rw [List.map_cons, List.nodup_cons] at hc
    rw [List.forall_mem_cons] at hbase
    have hcontains : m.contains c.tensor = true ↔ c.tensor ∈ names := by
      rw [Std.TreeMap.contains_eq_isSome_getElem?, Option.isSome_iff_ne_none, Ne,
        h.getElem?_eq_none, not_not]
    rw [List.foldl_cons, List.map_cons, List.filter_cons]
    by_cases hmem : c.tensor ∈ names
    · rw [if_pos (hcontains.mpr hmem), if_neg (by simpa using hbase.1.mp hmem)]
      exact ih h hc.2 hbase.2
    · rw [if_neg (mt hcontains.mp hmem), if_pos (by simpa using mt hbase.1.mpr hmem), h.size,
        List.append_cons]
      refine ih (h.insert hmem c.line) hc.2 ?_
      intro c' hc'
      have hne : c'.tensor ≠ c.tensor := fun heq => hc.1 (heq ▸ List.mem_map_of_mem hc')
      rw [List.mem_append, List.mem_singleton, or_iff_left hne]
      exact hbase.2 c' hc'

theorem lists_knownParams (hi : (inputs.map InputDecl.tensor).Nodup)
    (hc : (consts.map ConstDecl.tensor).Nodup) :
    Lists (knownParams inputs consts) (paramNames inputs consts) := by
  have hinputs := lists_inputs lists_empty inputs (by simpa using hi)
  exact lists_consts hinputs consts hc (fun c _ => Iff.rfl)

/-! ## Steps -/

/-- A step with the places of its sources. -/
def Reads (names : List Bytes) (step : Step) (n : NumberedStep) : Prop :=
  n.step = step ∧ List.Forall₂ (fun t id => names[id]? = some t) step.sources n.inputs

theorem Reads.mono {names more : List Bytes} {step : Step} {n : NumberedStep}
    (h : Reads names step n) : Reads (names ++ more) step n := by
  refine ⟨h.1, h.2.imp ?_⟩
  intro t id hid
  rw [List.getElem?_append_left (List.getElem?_eq_some_iff.mp hid).1, hid]

theorem Reads.lt_length {names : List Bytes} {step : Step} {n : NumberedStep}
    (h : Reads names step n) {id : Nat} (hid : id ∈ n.inputs) : id < names.length := by
  obtain ⟨t, -, ht⟩ := exists_left_of_forall₂ h.2 hid
  exact (List.getElem?_eq_some_iff.mp ht).1

/-- Numbered steps, each of which reads only parameters and outputs of the steps before it. -/
inductive InOrder (names : List Bytes) : List Step → List NumberedStep → Prop
  | nil : InOrder names [] []
  | snoc {seen : List Step} {ns : List NumberedStep} {step : Step} {n : NumberedStep}
      (hseen : InOrder names seen ns) (hreads : Reads (names ++ seen.map Step.target) step n) :
      InOrder names (seen ++ [step]) (ns ++ [n])

section InOrder

variable {names : List Bytes} {steps : List Step} {ns : List NumberedStep}

theorem InOrder.length_eq (h : InOrder names steps ns) : steps.length = ns.length := by
  induction h with
  | nil => rfl
  | snoc _ _ ih => simp [ih]

theorem InOrder.forall₂ (h : InOrder names steps ns) :
    List.Forall₂ (Reads (names ++ steps.map Step.target)) steps ns := by
  induction h with
  | nil => exact .nil
  | snoc _ hreads ih =>
    rw [List.map_append, ← List.append_assoc]
    exact List.rel_append (ih.imp fun _ _ h => h.mono) (.cons hreads.mono .nil)

theorem InOrder.reads_at (h : InOrder names steps ns) {i : Nat} {step : Step}
    (hstep : steps[i]? = some step) :
    ∃ n, ns[i]? = some n ∧ Reads (names ++ (steps.take i).map Step.target) step n := by
  induction h with
  | nil => simp at hstep
  | @snoc seen ns _ n hseen hreads ih =>
    rcases getElem?_concat_eq_some.mp hstep with hold | ⟨rfl, rfl⟩
    · obtain ⟨m, hm, hmreads⟩ := ih hold
      have hi := (List.getElem?_eq_some_iff.mp hold).1
      refine ⟨m, getElem?_concat_eq_some.mpr (.inl hm), ?_⟩
      rwa [List.take_append_of_le_length hi.le]
    · refine ⟨n, getElem?_concat_eq_some.mpr (.inr ⟨hseen.length_eq, rfl⟩), ?_⟩
      rwa [List.take_left]

end InOrder

/-- Where numbering stands after the steps seen. -/
structure State.Inv (names : List Bytes) (seen : List Step) (s : State) : Prop where
  known : Lists s.known (names ++ seen.map Step.target)
  next : s.next = names.length + seen.length
  nodup : (names ++ seen.map Step.target).Nodup
  done : InOrder names seen s.done.reverse

theorem lookup_eq_ok {w : Std.TreeSet Bytes} {m : Known} {names : List Bytes} {line : Int}
    {t : Bytes} {id : Nat} (hm : Lists m names) (h : lookup w m line t = .ok id) :
    names[id]? = some t := by
  unfold lookup at h
  split at h
  · rename_i line' hfound
    cases h
    exact (hm.ids t _).mp ⟨line', hfound⟩
  · split at h <;> cases h

theorem step_keeps {w : Std.TreeSet Bytes} {names : List Bytes} {seen : List Step} {s s' : State}
    {step : Step} (hs : s.Inv names seen) (h : s.step w step = .ok s') :
    s'.Inv names (seen ++ [step]) := by
  unfold State.step at h
  obtain ⟨inputs, hinputs, h⟩ := bind_eq_ok.mp h
  split at h
  · cases h
  · rename_i hnew
    cases h
    have hnew := hs.known.getElem?_eq_none.mp hnew
    have hnames : names ++ (seen ++ [step]).map Step.target =
        names ++ seen.map Step.target ++ [step.target] := by simp
    have hlen : s.next = (names ++ seen.map Step.target).length := by simp [hs.next]
    refine ⟨?_, ?_, ?_, ?_⟩
    · rw [hnames, hlen]
      exact hs.known.insert hnew step.line
    · simp [hs.next, Nat.add_assoc]
    · rw [hnames, ← List.concat_eq_append]
      exact hs.nodup.concat hnew
    · rw [List.reverse_cons]
      have hreads : Reads (names ++ seen.map Step.target) step ⟨step, inputs⟩ :=
        ⟨rfl, (mapM_eq_ok.mp hinputs).imp fun _ _ hid => lookup_eq_ok hs.known hid⟩
      exact .snoc hs.done hreads

/-- Where numbering starts. -/
def start (inputs : List InputDecl) (consts : List ConstDecl) : State :=
  ⟨knownParams inputs consts, (paramSources inputs consts).length, []⟩

theorem inv_of_foldlM {w : Std.TreeSet Bytes} {steps : List Step} {s : State}
    (hi : (inputs.map InputDecl.tensor).Nodup) (hc : (consts.map ConstDecl.tensor).Nodup)
    (h : steps.foldlM (State.step w) (start inputs consts) = .ok s) :
    s.Inv (paramNames inputs consts) steps := by
  refine foldlM_invariant (P := fun seen (s : State) => s.Inv _ seen) ?_ ?_ h
  · intro seen step s s' hs hstep
    exact step_keeps hs hstep
  · refine ⟨?_, ?_, ?_, .nil⟩
    · simpa [start] using lists_knownParams hi hc
    · simp [start, ← map_tensor_paramSources hc]
    · simpa using nodup_paramNames hi hc

theorem ofSteps_eq_ok {steps : List Step} {n : Numbering}
    (hi : (inputs.map InputDecl.tensor).Nodup) (hc : (consts.map ConstDecl.tensor).Nodup)
    (h : ofSteps inputs consts steps = .ok n) :
    n.params = paramSources inputs consts ∧
      (paramNames inputs consts ++ steps.map Step.target).Nodup ∧
      InOrder (paramNames inputs consts) steps n.steps := by
  unfold ofSteps at h
  obtain ⟨s, hrun, h⟩ := bind_eq_ok.mp h
  cases h
  have hs := inv_of_foldlM hi hc hrun
  exact ⟨rfl, hs.nodup, hs.done⟩

end Numbering
end NetImage
