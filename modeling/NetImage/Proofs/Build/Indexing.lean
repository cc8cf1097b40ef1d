import NetImage.Proofs.Build.Numbering

/-!
# NetImage.Proofs.Build.Indexing

When numbering succeeds, what it gives, and where it stops. A graph can be numbered if and only if
every tensor has one producer and every operand stands before its reader; otherwise the first step that
breaks this is the one that is reported.

* `Numbering.Available`: the tensors that a step may read.
* `Numbering.Orderly`, `Numbering.Fits`: the condition on a graph, and on one of its steps.
* `Numbering.step_eq_error`: how one step fails.
* `Numbering.indexes_of_run`, `Numbering.refuses_of_run`: what all steps give, and which of them fails.
* `Numbering.ofSteps_iff_orderly`: the whole stage.
-/

namespace NetImage
namespace Numbering

section Conditions

variable (inputs : List InputDecl) (consts : List ConstDecl) (steps : List Step)

/-- The name of an input or a constant, or the output of a step before place `i`. -/
def Available (i : Nat) (t : Bytes) : Prop :=
  t ∈ inputs.map InputDecl.tensor ∨ t ∈ consts.map ConstDecl.tensor ∨
    t ∈ (steps.take i).map Step.target

/-- Outputs are pairwise distinct and no names of inputs or constants, and every operand is available
to its step. -/
structure Orderly : Prop where
  outputs : (steps.map Step.target).Nodup
  fresh : ∀ s ∈ steps, s.target ∉ inputs.map InputDecl.tensor ∧
    s.target ∉ consts.map ConstDecl.tensor
  operands : ∀ (i : Nat) (s : Step), steps[i]? = some s →
    ∀ t ∈ s.sources, Available inputs consts steps i t

/-- The step at place `i` reads what is available there, and writes what is not. -/
structure Fits (i : Nat) (s : Step) : Prop where
  operands : ∀ t ∈ s.sources, Available inputs consts steps i t
  target : ¬ Available inputs consts steps i s.target

/-- The first operand of the step at place `i` that is not available there. -/
def FirstMissing (i : Nat) (s : Step) (t : Bytes) : Prop :=
  ∃ before after, s.sources = before ++ t :: after ∧
    (∀ u ∈ before, Available inputs consts steps i u) ∧ ¬ Available inputs consts steps i t

end Conditions

variable {inputs : List InputDecl} {consts : List ConstDecl} {steps : List Step}

theorem mem_paramNames {t : Bytes} : t ∈ paramNames inputs consts ↔
    t ∈ inputs.map InputDecl.tensor ∨ t ∈ consts.map ConstDecl.tensor := by
  rw [paramNames, List.mem_append, List.mem_filter]
  by_cases h : t ∈ inputs.map InputDecl.tensor
  · simp [h]
  · simp [h]

theorem available_iff {i : Nat} {t : Bytes} : Available inputs consts steps i t ↔
    t ∈ paramNames inputs consts ++ (steps.take i).map Step.target := by
  rw [Available, List.mem_append, mem_paramNames, or_assoc]

/-- The condition on a graph, step by step. -/
theorem orderly_iff : Orderly inputs consts steps ↔
    ∀ (i : Nat) (s : Step), steps[i]? = some s → Fits inputs consts steps i s := by
  constructor
  · intro h i s hs
    refine ⟨h.operands i s hs, ?_⟩
    have hfresh := h.fresh s (List.mem_of_getElem? hs)
    rintro (hin | hconst | hbefore)
    · exact hfresh.1 hin
    · exact hfresh.2 hconst
    · -- an output that is repeated stands at two places of the list of outputs
      obtain ⟨j, hj⟩ := List.mem_iff_getElem?.mp hbefore
      rw [List.map_take] at hj
      have hlt : j < i := by
        have := (List.getElem?_eq_some_iff.mp hj).1
        rw [List.length_take] at this
        omega
      rw [List.getElem?_take_of_lt hlt] at hj
      have hi : (steps.map Step.target)[i]? = some s.target := by simp [hs]
      have heq := (List.getElem?_inj (List.getElem?_eq_some_iff.mp hj).1 h.outputs).mp
        (hj.trans hi.symm)
      omega
  · intro h
    refine ⟨?_, ?_, fun i s hs => (h i s hs).operands⟩
    · rw [List.nodup_iff_pairwise_ne, List.pairwise_iff_getElem]
      intro i j hi hj hij heq
      rw [List.length_map] at hi hj
      simp only [List.getElem_map] at heq
      refine (h j _ (List.getElem?_eq_getElem hj)).target (.inr (.inr ?_))
      rw [← heq]
      refine List.mem_map_of_mem (List.mem_of_getElem? (i := i) ?_)
      rw [List.getElem?_take_of_lt hij, List.getElem?_eq_getElem hi]
    · intro s hs
      obtain ⟨i, hi⟩ := List.mem_iff_getElem?.mp hs
      exact ⟨fun hin => (h i s hi).target (.inl hin), fun hc => (h i s hi).target (.inr (.inl hc))⟩

/-! ## One step -/

section Step

variable {w : Std.TreeSet Bytes} {m : Known} {names : List Bytes}

theorem exists_lookup (hm : Lists m names) (line : Int) {t : Bytes} (ht : t ∈ names) :
    ∃ id, lookup w m line t = .ok id := by
  obtain ⟨id, hid⟩ := List.mem_iff_getElem?.mp ht
  obtain ⟨line', hline'⟩ := (hm.ids t id).mpr hid
  exact ⟨id, by rw [lookup, hline']⟩

theorem lookup_of_not_mem (hm : Lists m names) (line : Int) {t : Bytes} (ht : t ∉ names) :
    lookup w m line t = .error
      (if w.contains t then .consumedTooEarly t line else .neverProduced t line) := by
  rw [lookup, hm.getElem?_eq_none.mpr ht]
  simp only
  split <;> rfl

/-- A step fails at the first operand that is not known, or else because its output is. -/
theorem step_eq_error {s : State} {step : Step} {e : Fault} (hs : Lists s.known names)
    (h : s.step w step = .error e) :
    (∃ before t after, step.sources = before ++ t :: after ∧ (∀ u ∈ before, u ∈ names) ∧ t ∉ names ∧
      e = if w.contains t then .consumedTooEarly t step.line else .neverProduced t step.line) ∨
    ((∀ t ∈ step.sources, t ∈ names) ∧ step.target ∈ names ∧
      ∃ line, e = .producedAgain step.target line step.line) := by
  have hknown : ∀ {t id}, lookup w s.known step.line t = .ok id → t ∈ names :=
    fun hid => List.mem_of_getElem? (lookup_eq_ok hs hid)
  rcases bind_eq_error.mp h with hsources | ⟨ids, hids, h⟩
  · obtain ⟨before, t, after, hsplit, hbefore, ht⟩ := mapM_eq_error hsources
    have hmissing : t ∉ names := by
      intro hmem
      obtain ⟨id, hid⟩ := exists_lookup (w := w) hs step.line hmem
      rw [hid] at ht
      cases ht
    rw [lookup_of_not_mem hs step.line hmissing] at ht
    refine .inl ⟨before, t, after, hsplit, ?_, hmissing, (Except.error.inj ht).symm⟩
    intro u hu
    obtain ⟨id, hid⟩ := hbefore u hu
    exact hknown hid
  · refine .inr ⟨?_, ?_, ?_⟩
    · intro t ht
      obtain ⟨id, -, hid⟩ := exists_right_of_forall₂ (mapM_eq_ok.mp hids) ht
      exact hknown hid
    · by_contra hnew
      simp only [hs.getElem?_eq_none.mpr hnew] at h
      cases h
    · split at h
      · rename_i line _
        cases h
        exact ⟨line, rfl⟩
      · cases h

end Step

/-! ## All steps -/

/-- Numbering, with the tensors that are known at its end. -/
def run (inputs : List InputDecl) (consts : List ConstDecl) (steps : List Step) :
    Except Fault State :=
  steps.foldlM (State.step (written steps)) (start inputs consts)

theorem ofSteps_eq_run : ofSteps inputs consts steps =
    (run inputs consts steps).map fun s => ⟨paramSources inputs consts, s.done.reverse⟩ := by
  show run inputs consts steps >>= _ = _
  cases run inputs consts steps <;> rfl

theorem State.Inv.fits {s : State} (hs : s.Inv (paramNames inputs consts) steps) {i : Nat}
    {step : Step} (hstep : steps[i]? = some step) : Fits inputs consts steps i step := by
  obtain ⟨n, -, hreads⟩ := hs.done.reads_at hstep
  refine ⟨?_, ?_⟩
  · intro t ht
    obtain ⟨id, -, hid⟩ := exists_right_of_forall₂ hreads.2 ht
    exact available_iff.mpr (List.mem_of_getElem? hid)
  · rw [available_iff]
    have hlt := (List.getElem?_eq_some_iff.mp hstep).1
    -- the outputs before place `i`, then this one
    have hsplit : steps = steps.take i ++ step :: steps.drop (i + 1) := by
      rw [← (List.getElem?_eq_some_iff.mp hstep).2, List.getElem_cons_drop, List.take_append_drop]
    have hnodup := hs.nodup
    rw [hsplit, List.map_append, ← List.append_assoc] at hnodup
    intro hmem
    exact (List.nodup_append.mp hnodup).2.2 _ hmem _ List.mem_cons_self rfl

/-- Places before `i` are the same in a list that goes on. -/
theorem fits_append {before rest : List Step} {i : Nat} {step : Step} (hi : i ≤ before.length) :
    Fits inputs consts (before ++ rest) i step ↔ Fits inputs consts before i step := by
  have havailable : ∀ t, Available inputs consts (before ++ rest) i t ↔
      Available inputs consts before i t := by
    intro t
    rw [Available, Available, List.take_append_of_le_length hi]
  constructor
  · intro h
    exact ⟨fun t ht => (havailable t).mp (h.operands t ht), mt (havailable _).mpr h.target⟩
  · intro h
    exact ⟨fun t ht => (havailable t).mpr (h.operands t ht), mt (havailable _).mp h.target⟩

/-- What is reported of the step at place `i` that does not fit there. -/
inductive Refuses (inputs : List InputDecl) (consts : List ConstDecl) (steps : List Step) (i : Nat)
    (s : Step) : Fault → Prop
  | early {t : Bytes} (hfirst : FirstMissing inputs consts steps i s t)
      (hlater : t ∈ (steps.drop i).map Step.target) :
      Refuses inputs consts steps i s (.consumedTooEarly t s.line)
  | never {t : Bytes} (hfirst : FirstMissing inputs consts steps i s t)
      (hnever : t ∉ (steps.drop i).map Step.target) :
      Refuses inputs consts steps i s (.neverProduced t s.line)
  | again {line : Int} (hoperands : ∀ t ∈ s.sources, Available inputs consts steps i t)
      (htarget : Available inputs consts steps i s.target) :
      Refuses inputs consts steps i s (.producedAgain s.target line s.line)

theorem FirstMissing.eq {i : Nat} {s : Step} {t t' : Bytes}
    (h : FirstMissing inputs consts steps i s t) (h' : FirstMissing inputs consts steps i s t') :
    t = t' := by
  obtain ⟨before, after, hsplit, hbefore, ht⟩ := h
  obtain ⟨before', after', hsplit', hbefore', ht'⟩ := h'
  rw [hsplit] at hsplit'
  -- neither operand stands among those before the other, which are available
  rcases List.append_eq_append_iff.mp hsplit' with ⟨more, rfl, hrest⟩ | ⟨more, rfl, hrest⟩
  · cases more with
    | nil => exact (List.cons.inj hrest).1
    | cons u more =>
      rw [List.cons_append, List.cons.injEq] at hrest
      exact absurd (hbefore' t (by simp [hrest.1])) ht
  · cases more with
    | nil => exact (List.cons.inj hrest).1.symm
    | cons u more =>
      rw [List.cons_append, List.cons.injEq] at hrest
      exact absurd (hbefore t' (by simp [hrest.1])) ht'

theorem FirstMissing.mem_sources {i : Nat} {s : Step} {t : Bytes}
    (h : FirstMissing inputs consts steps i s t) : t ∈ s.sources := by
  obtain ⟨before, after, hsplit, -⟩ := h
  simp [hsplit]

theorem FirstMissing.missing {i : Nat} {s : Step} {t : Bytes}
    (h : FirstMissing inputs consts steps i s t) : ¬ Available inputs consts steps i t := by
  obtain ⟨before, after, -, -, ht⟩ := h
  exact ht

/-- What is not available at place `i` is written, if at all, there or later. -/
theorem contains_written {i : Nat} {t : Bytes} (h : ¬ Available inputs consts steps i t) :
    (written steps).contains t = true ↔ t ∈ (steps.drop i).map Step.target := by
  have hbefore : t ∉ (steps.take i).map Step.target := fun hmem => h (.inr (.inr hmem))
  rw [written, contains_names]
  nth_rewrite 1 [← List.take_append_drop i steps]
  rw [List.map_append, List.mem_append, or_iff_right hbefore]

theorem Refuses.not_fits {i : Nat} {s : Step} {e : Fault}
    (h : Refuses inputs consts steps i s e) : ¬ Fits inputs consts steps i s := by
  intro hfits
  cases h with
  | early hfirst _ | never hfirst _ =>
    exact hfirst.missing (hfits.operands _ hfirst.mem_sources)
  | again _ htarget => exact hfits.target htarget

theorem Refuses.kind_iff {i : Nat} {s : Step} {e : Fault}
    (h : Refuses inputs consts steps i s e) :
    e.kind = .structural ↔ ∃ t, FirstMissing inputs consts steps i s t ∧
      t ∈ (steps.drop i).map Step.target := by
  cases h with
  | early hfirst hlater => exact iff_of_true rfl ⟨_, hfirst, hlater⟩
  | never hfirst hnever =>
    refine iff_of_false (fun hkind => nomatch hkind) ?_
    rintro ⟨t', hfirst', hlater⟩
    rw [← hfirst.eq hfirst'] at hlater
    exact hnever hlater
  | again hoperands _ =>
    refine iff_of_false (fun hkind => nomatch hkind) ?_
    rintro ⟨t', hfirst', -⟩
    exact hfirst'.missing (hoperands t' hfirst'.mem_sources)

/-- The step that stops numbering is the first that does not fit. -/
theorem refuses_of_run {e : Fault} (hi : (inputs.map InputDecl.tensor).Nodup)
    (hc : (consts.map ConstDecl.tensor).Nodup) (h : run inputs consts steps = .error e) :
    ∃ i s, steps[i]? = some s ∧ Refuses inputs consts steps i s e ∧
      ∀ (j : Nat) (s' : Step), j < i → steps[j]? = some s' → Fits inputs consts steps j s' := by
  obtain ⟨before, step, after, s, hsplit, hbefore, hstep⟩ := foldlM_eq_error h
  have hs := inv_of_foldlM hi hc hbefore
  have htake : steps.take before.length = before := by rw [hsplit, List.take_left]
  have hnames : ∀ t, t ∈ paramNames inputs consts ++ before.map Step.target ↔
      Available inputs consts steps before.length t := by
    intro t
    rw [available_iff, htake]
  refine ⟨before.length, step, by simp [hsplit], ?_, ?_⟩
  · rcases step_eq_error hs.known hstep with
      ⟨pre, t, post, hsources, hpre, ht, rfl⟩ | ⟨hsources, htarget, line, rfl⟩
    · have hfirst : FirstMissing inputs consts steps before.length step t :=
        ⟨pre, post, hsources, fun u hu => (hnames u).mp (hpre u hu), mt (hnames t).mpr ht⟩
      have hlater := contains_written hfirst.missing
      by_cases hwritten : (written steps).contains t = true
      · rw [if_pos hwritten]
        exact .early hfirst (hlater.mp hwritten)
      · rw [if_neg hwritten]
        exact .never hfirst (mt hlater.mpr hwritten)
    · exact .again (fun t ht => (hnames t).mp (hsources t ht)) ((hnames _).mp htarget)
  · intro j s' hj hs'
    rw [hsplit, List.getElem?_append_left hj] at hs'
    rw [hsplit]
    exact (fits_append hj.le).mpr (hs.fits hs')

/-- A numbered graph and the tensors known at its end. The ids are the places of one list without
repetition: the names of the inputs, of the constants that are no inputs, and of the outputs. -/
structure Indexes (inputs : List InputDecl) (consts : List ConstDecl) (steps : List Step)
    (known : Known) (n : Numbering) : Prop where
  params : n.params.length =
    (inputs.map InputDecl.tensor ++ consts.map ConstDecl.tensor).toFinset.card
  nodup : (paramNames inputs consts ++ steps.map Step.target).Nodup
  length : (paramNames inputs consts ++ steps.map Step.target).length =
    n.params.length + steps.length
  ids : ∀ (t : Bytes) (id : Nat), (∃ line : Int, known[t]? = some (id, line)) ↔
    (paramNames inputs consts ++ steps.map Step.target)[id]? = some t
  steps : n.steps.map NumberedStep.step = steps
  operands : ∀ (i : Nat) (s : NumberedStep), n.steps[i]? = some s →
    List.Forall₂ (fun t id => ∃ line : Int, known[t]? = some (id, line)) s.step.sources s.inputs ∧
      ∀ id ∈ s.inputs, id < n.params.length + i

theorem length_paramNames (hi : (inputs.map InputDecl.tensor).Nodup)
    (hc : (consts.map ConstDecl.tensor).Nodup) : (paramNames inputs consts).length =
      (inputs.map InputDecl.tensor ++ consts.map ConstDecl.tensor).toFinset.card := by
  rw [← List.toFinset_card_of_nodup (nodup_paramNames hi hc)]
  congr 1
  ext t
  rw [List.mem_toFinset, List.mem_toFinset, mem_paramNames, List.mem_append]

theorem indexes_of_run {s : State} (hi : (inputs.map InputDecl.tensor).Nodup)
    (hc : (consts.map ConstDecl.tensor).Nodup) (h : run inputs consts steps = .ok s) :
    Indexes inputs consts steps s.known ⟨paramSources inputs consts, s.done.reverse⟩ := by
  have hs := inv_of_foldlM hi hc h
  have hparams : (paramSources inputs consts).length = (paramNames inputs consts).length := by
    rw [← map_tensor_paramSources hc, List.length_map]
  have hsteps : s.done.reverse.map NumberedStep.step = steps := by
    rw [← List.forall₂_eq_eq_eq, List.forall₂_map_left_iff]
    exact hs.done.forall₂.flip.imp fun n step hreads => hreads.1
  refine ⟨hparams.trans (length_paramNames hi hc), hs.nodup, by simp [hparams], hs.known.ids, hsteps, ?_⟩
  intro i n hn
  have hstep : steps[i]? = some n.step := by
    rw [← hsteps, List.getElem?_map, hn]
    rfl
  obtain ⟨n', hn', hreads⟩ := hs.done.reads_at hstep
  obtain rfl : n = n' := Option.some.inj (hn.symm.trans hn')
  refine ⟨?_, ?_⟩
  · have hend : Reads (_ ++ (steps.drop i).map Step.target) n.step n := hreads.mono
    rw [List.append_assoc, ← List.map_append, List.take_append_drop] at hend
    exact hend.2.imp fun t id hid => (hs.known.ids t id).mpr hid
  · intro id hid
    have hlt := hreads.lt_length hid
    rw [List.length_append, List.length_map, List.length_take] at hlt
    show id < (paramSources inputs consts).length + i
    omega

/-- **Numbering is sound and complete.** A graph is numbered if and only if it is orderly. Then the ids
are the places of one list of names, and every step reads smaller ids than its own. Otherwise the first
step that does not fit stops it, and the fault is structural just when the first operand missing there
is written by that step or a later one. -/
theorem ofSteps_iff_orderly (hi : (inputs.map InputDecl.tensor).Nodup)
    (hc : (consts.map ConstDecl.tensor).Nodup) :
    ((∃ n, ofSteps inputs consts steps = .ok n) ↔ Orderly inputs consts steps) ∧
    (∀ n, ofSteps inputs consts steps = .ok n →
      ∃ s, run inputs consts steps = .ok s ∧ Indexes inputs consts steps s.known n) ∧
    ∀ e, ofSteps inputs consts steps = .error e →
      ∃ i s, steps[i]? = some s ∧ ¬ Fits inputs consts steps i s ∧
        (∀ (j : Nat) (s' : Step), j < i → steps[j]? = some s' → Fits inputs consts steps j s') ∧
        (e.kind = .structural ↔ ∃ t, FirstMissing inputs consts steps i s t ∧
          t ∈ (steps.drop i).map Step.target) := by
  rw [ofSteps_eq_run]
  cases hrun : run inputs consts steps with
  | ok s =>
    have horderly : Orderly inputs consts steps :=
      orderly_iff.mpr fun i step hstep => (inv_of_foldlM hi hc hrun).fits hstep
    refine ⟨iff_of_true ⟨_, rfl⟩ horderly, ?_, ?_⟩
    · intro n hn
      cases hn
      exact ⟨s, rfl, indexes_of_run hi hc hrun⟩
    · intro e he
      cases he
  | error e =>
    obtain ⟨i, s, hs, hrefuses, hbefore⟩ := refuses_of_run hi hc hrun
    refine ⟨iff_of_false ?_ ?_, ?_, ?_⟩
    · rintro ⟨n, hn⟩
      cases hn
    · intro horderly
      exact hrefuses.not_fits (orderly_iff.mp horderly i s hs)
    · intro n hn
      cases hn
    · intro e' he
      cases he
      exact ⟨i, s, hs, hrefuses.not_fits, hbefore, hrefuses.kind_iff⟩

/-- A constant that supplies an input, one that does not, and two sums of which the second reads the
first. -/
def tiedInputs : List InputDecl := [⟨1, ascii "x", 1, 1, 1⟩, ⟨2, ascii "k", 1, 1, 1⟩]

def tiedConsts : List ConstDecl :=
  [⟨3, ascii "k", .float, [1], .inline [ascii "1"]⟩, ⟨4, ascii "w", .float, [1], .inline [ascii "2"]⟩]

def tiedSteps : List Step :=
  [⟨5, ascii "p", .add, [ascii "x", ascii "w"], ascii "y", none⟩,
   ⟨6, ascii "q", .add, [ascii "y", ascii "k"], ascii "z", none⟩]

theorem tiedSteps_orderly :
    (ofSteps tiedInputs tiedConsts tiedSteps).map (fun n => n.steps.map NumberedStep.inputs) =
        .ok [[0, 2], [3, 1]] ∧
      Orderly tiedInputs tiedConsts tiedSteps ∧
      ∃ i s, tiedSteps.reverse[i]? = some s ∧
        ∃ t, FirstMissing tiedInputs tiedConsts tiedSteps.reverse i s t ∧
          t ∈ (tiedSteps.reverse.drop i).map Step.target := by
  have hi : (tiedInputs.map InputDecl.tensor).Nodup := by decide
  have hc : (tiedConsts.map ConstDecl.tensor).Nodup := by decide
  have hids : (ofSteps tiedInputs tiedConsts tiedSteps).map
      (fun n => n.steps.map NumberedStep.inputs) = .ok [[0, 2], [3, 1]] := by decide +kernel
  obtain ⟨n, hn, -⟩ := map_eq_ok.mp hids
  refine ⟨hids, (ofSteps_iff_orderly hi hc).1.mp ⟨n, hn⟩, ?_⟩
  have herror : ofSteps tiedInputs tiedConsts tiedSteps.reverse =
      .error (.consumedTooEarly (ascii "y") 6) := by rfl
  obtain ⟨i, s, hs, -, -, hkind⟩ := (ofSteps_iff_orderly hi hc).2.2 _ herror
  exact ⟨i, s, hs, hkind.mp rfl⟩

end Numbering
end NetImage
