import NetImage.Build.Attributes
import NetImage.Proofs.Build.Folding

/-!
# NetImage.Proofs.Build.Steps

The steps of a graph, operator by operator. Every operator has one output that counts, and the steps
are those of the operators that are kept.

* `Step.ofSources_eq_ok`: the steps as a function of the graph.
* `Step.contains_weights`: the tensors that some convolution reads as its weights.
* `stepFlags_eq`: their flags, each found with the step behind instead of marked by it.
-/

namespace NetImage
namespace Sources

/-- Does some convolution read this tensor as its weights? -/
def IsWeights (g : Sources) (t : Bytes) : Prop :=
  ∃ op ∈ g.ops, op.body.type = .conv ∧ ∃ w, op.body.sources[1]? = some w ∧ g.redirect w = t

end Sources

/-- The output of an operator that has one. -/
def OpDecl.output (op : OpDecl) : Bytes := (Step.outputs op.body).headD []

namespace Step

variable {g : Sources} {f : Folding} {steps : List Step}

theorem expand_eq_ok {op : OpDecl} {part : List Step} (h : expand f op = .ok part) :
    outputs op.body = [op.output] ∧ part = if f.isFolded op then [] else ofOp f op op.output := by
  unfold expand at h
  split at h
  · rename_i t ht
    cases h
    have houtput : op.output = t := by
      rw [OpDecl.output, ht]
      rfl
    exact ⟨by rw [houtput, ht], by rw [houtput]⟩
  · cases h

/-- The steps of the operators that are not left out, one operator behind the other. -/
theorem flatten_expand {ops : List OpDecl} {parts : List (List Step)}
    (h : List.Forall₂ (fun op part => expand f op = .ok part) ops parts) :
    parts.flatten =
      (ops.filter fun op => !f.isFolded op).flatMap fun op => ofOp f op op.output := by
  induction h with
  | nil => rfl
  | cons hop _ ih =>
    rw [List.flatten_cons, ih, (expand_eq_ok hop).2]
    split
    · rename_i hfolded
      simp [hfolded]
    · rename_i hkept
      simp [hkept]

theorem ofSources_eq_ok (hf : Folding.Folds g g.ops f) (h : (ofSources g f).result = .ok steps) :
    (∀ op ∈ g.ops, outputs op.body = [op.output]) ∧
      steps = g.kept.flatMap fun op => ofOp f op op.output := by
  unfold ofSources at h
  simp only [Traced.result_bind, Traced.result_ofExcept, Traced.result_tell,
    Traced.result_pure] at h
  obtain ⟨parts, hparts, h⟩ := bind_eq_ok.mp h
  cases h
  refine ⟨?_, ?_⟩
  · intro op hop
    obtain ⟨part, -, hpart⟩ := exists_right_of_forall₂ (mapM_eq_ok.mp hparts) hop
    exact (expand_eq_ok hpart).1
  · rw [flatten_expand (mapM_eq_ok.mp hparts)]
    simp only [hf.isFolded_eq]
    rfl

theorem ofOp_conv {op : OpDecl} (h : op.body.type = .conv) (t : Bytes) :
    ofOp f op t =
      [⟨op.line, op.name, .conv, op.body.sources.map f.resolve, beforeMerge t, some op.body⟩,
       ⟨op.line, mergeName op.name, .convMerge, [beforeMerge t], t, none⟩] := by
  rw [ofOp, if_pos h]

theorem ofOp_plain {op : OpDecl} (h : op.body.type ≠ .conv) (t : Bytes) :
    ofOp f op t =
      [⟨op.line, op.name, op.body.type, op.body.sources.map f.resolve, t, some op.body⟩] := by
  rw [ofOp, if_neg h]

theorem type_of_mem_ofOp {op : OpDecl} {t : Bytes} {s : Step} (hs : s ∈ ofOp f op t) :
    s.type = op.body.type ∨ s.type = .convMerge := by
  by_cases h : op.body.type = .conv
  · rw [ofOp_conv h, List.mem_pair] at hs
    rcases hs with rfl | rfl
    · exact .inl h.symm
    · exact .inr rfl
  · rw [ofOp_plain h, List.mem_singleton] at hs
    rw [hs]
    exact .inl rfl

/-- A squeeze is no convolution. -/
theorem not_folds_of_conv {op : OpDecl} (h : op.body.type = .conv) : g.folds op = false := by
  rw [← Bool.not_eq_true, Sources.folds_iff]
  rintro ⟨source, target, axes, hbody, -⟩
  rw [hbody] at h
  cases h

/-! ## Weights of convolutions -/

theorem exists_of_mem_weights {t : Bytes} : (weights steps).contains t = true ↔
    ∃ s ∈ steps, s.type = .conv ∧ s.sources[1]? = some t := by
  unfold weights
  rw [contains_foldl (P := fun s : Step => s.type = .conv ∧ s.sources[1]? = some t)]
  · simp
  · intro found s
    split
    · rename_i hconv
      split
      · rename_i _ w _ hsources
        rw [contains_insert_name, hsources]
        simp [hconv]
      · rename_i hshort
        have hnone : s.sources[1]? = none := by
          match hs : s.sources with
          | [] => rfl
          | [_] => rfl
          | v :: w :: rest => exact absurd hs (hshort v w rest)
        simp [hnone]
    · rename_i hconv
      simp [hconv]

theorem mem_ofOp_conv {op : OpDecl} {t : Bytes} {s : Step} (hs : s ∈ ofOp f op t)
    (hconv : s.type = .conv) :
    op.body.type = .conv ∧ s.sources = op.body.sources.map f.resolve := by
  by_cases h : op.body.type = .conv
  · rw [ofOp_conv h, List.mem_pair] at hs
    rcases hs with rfl | rfl
    · exact ⟨h, rfl⟩
    · cases hconv
  · rw [ofOp_plain h, List.mem_singleton] at hs
    subst hs
    exact ⟨hconv, rfl⟩

theorem contains_weights {t : Bytes} (hf : Folding.Folds g g.ops f)
    (h : steps = g.kept.flatMap fun op => ofOp f op op.output) :
    (weights steps).contains t = true ↔ g.IsWeights t := by
  rw [exists_of_mem_weights, h]
  constructor
  · rintro ⟨s, hs, hconv, hw⟩
    obtain ⟨op, hop, hs⟩ := List.mem_flatMap.mp hs
    obtain ⟨htype, hsources⟩ := mem_ofOp_conv hs hconv
    rw [hsources, List.getElem?_map, Option.map_eq_some_iff] at hw
    obtain ⟨w, hw, rfl⟩ := hw
    exact ⟨op, List.mem_of_mem_filter hop, htype, w, hw, (hf.resolve_eq w).symm⟩
  · rintro ⟨op, hop, htype, w, hw, rfl⟩
    have hkept : op ∈ g.kept := List.mem_filter.mpr ⟨hop, by rw [not_folds_of_conv htype]; rfl⟩
    have hsteps := ofOp_conv (f := f) htype op.output
    refine ⟨_, List.mem_flatMap.mpr ⟨op, hkept, hsteps ▸ List.mem_cons_self⟩, rfl, ?_⟩
    rw [List.getElem?_map, hw, Option.map_some, hf.resolve_eq]

end Step

/-! ## Flags -/

namespace Attributes

/-- The flags of a step, given the one behind it. -/
def ofStep (s : Step) (next : Option Step) : Flags :=
  let isReshape := match next with
    | some next => next.type == .reshape
    | none => false
  { ofBody s.body with nhwcToNchw := s.type == .maxPool && isReshape }

theorem ofBody_unmarked (body : Option OpBody) :
    { ofBody body with nhwcToNchw := false } = ofBody body := by
  unfold ofBody
  split <;> rfl

theorem ofStep_none (s : Step) : ofStep s none = ofBody s.body := by
  simp only [ofStep, Bool.and_false, ofBody_unmarked]

/-- Marking a step gives it the flags that it has with the one behind it. -/
theorem mark_ofBody (s next : Step) (done : List (OpType × Flags)) :
    mark next.type ((s.type, ofBody s.body) :: done) = (s.type, ofStep s (some next)) :: done := by
  cases hmark : s.type == .maxPool && next.type == .reshape with
  | true => simp [mark, ofStep, hmark]
  | false => simp [mark, ofStep, hmark, ofBody_unmarked]

/-- The loop behind step `s`: those before it keep the flags they have. -/
theorem foldlM_step (s : Step) (done : List (OpType × Flags)) (steps : List Step) :
    (do let done ← steps.foldlM step ((s.type, ofBody s.body) :: done)
        pure (done.reverse.map Prod.snd)) =
      (do steps.forM check
          pure (done.reverse.map Prod.snd ++
            List.zipWith ofStep (s :: steps) (steps.map some ++ [none])) : Except Fault _) := by
  induction steps generalizing s done with
  | nil => simp [ofStep_none]
  | cons next steps ih =>
    simp only [List.foldlM_cons, List.forM_eq_forM, List.forM_cons, step, mark_ofBody, bind_assoc,
      pure_bind, ih, List.map_cons, List.cons_append, List.zipWith_cons_cons, List.reverse_cons,
      List.map_append, List.map_nil, List.append_assoc, List.nil_append]

end Attributes

theorem stepFlags_eq (steps : List Step) :
    stepFlags steps =
      (do steps.forM Attributes.check
          pure (List.zipWith Attributes.ofStep steps ((steps.drop 1).map some ++ [none]))) := by
  cases steps with
  | nil => rfl
  | cons s steps =>
    simp only [stepFlags, List.foldlM_cons, List.forM_eq_forM, List.forM_cons, Attributes.step,
      Attributes.mark, bind_assoc, pure_bind, Attributes.foldlM_step]
    rfl

end NetImage
