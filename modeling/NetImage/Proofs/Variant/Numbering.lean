import NetImage.Build.Attributes
import NetImage.Build.Compile
import NetImage.Proofs.Build.Steps
import NetImage.Proofs.Variant.Declarations

/-!
# NetImage.Proofs.Variant.Numbering

The steps and the ids of a variant of a graph. The compiler makes one name of its own for each
convolution, so the names of the steps are related by a larger relation `M` than those of the graph.

* `Naming`: what the two relations have to do with each other.
* `Step.agree_ofSources`: the steps of a variant are those of the graph under other names.
* `Numbering.agree_ofSteps`: the ids are the same.
* `lastNeeded_eq`, `agree_stepFlags`, `nodes_eq`: so are lives, flags and nodes.
-/

namespace NetImage

/-- Names of two graphs that stand for each other, and those of their steps. -/
structure Naming (N M : Bytes → Bytes → Prop) : Prop where
  unique : Relator.BiUnique M
  names : ∀ {t t' : Bytes}, N t t' → M t t'
  between : ∀ {t t' : Bytes}, N t t' → M (Step.beforeMerge t) (Step.beforeMerge t')

variable {N M : Bytes → Bytes → Prop} {read : FileReader}

/-- Every name stands for itself. -/
theorem Naming.eq : Naming Eq Eq where
  unique := ⟨fun _ _ _ h h' => h.trans h'.symm, fun _ _ _ h h' => h.symm.trans h'⟩
  names h := h
  between h := congrArg Step.beforeMerge h

theorem Naming.unique_names (h : Naming N M) : Relator.BiUnique N := by
  refine ⟨?_, ?_⟩
  · intro a b c ha hb
    exact h.unique.1 (h.names ha) (h.names hb)
  · intro a b c hb hc
    exact h.unique.2 (h.names hb) (h.names hc)

/-! ## Steps -/

namespace OpBody

variable {b b' : OpBody}

theorem Like.type_eq (h : b.Like N b') : b.type = b'.type := by
  cases h <;> rfl

theorem Like.sources (h : b.Like N b') : List.Forall₂ N b.sources b'.sources := by
  cases h with
  | plain type hsources _ => exact hsources
  | concat axis hsources _ => exact hsources
  | conv strides pad hsource hweights hbias _ =>
    refine .cons hsource (.cons hweights ?_)
    cases hbias with
    | some hb => exact .cons hb .nil
    | none => exact .nil
  | dropout _ _ hsource _ => exact .cons hsource .nil
  | maxPool _ _ _ hsource _ => exact .cons hsource .nil
  | squeeze _ hsource _ => exact .cons hsource .nil

theorem Like.outputs (h : b.Like N b') :
    List.Forall₂ N (Step.outputs b) (Step.outputs b') := by
  cases h with
  | plain type _ htargets => exact htargets
  | concat _ _ htarget => exact .cons htarget .nil
  | conv _ _ _ _ _ htarget => exact .cons htarget .nil
  | dropout _ _ _ htarget => exact .cons htarget .nil
  | maxPool _ _ _ _ htarget => exact .cons htarget .nil
  | squeeze _ _ htarget => exact .cons htarget .nil

theorem Like.flags_eq (h : b.Like N b') :
    Attributes.ofBody (some b) = Attributes.ofBody (some b') := by
  cases h <;> rfl

end OpBody

namespace Step

/-- A step of a variant: the same operator under other names. -/
structure Like (N M : Bytes → Bytes → Prop) (s s' : Step) : Prop where
  name : s.name = s'.name
  type : s.type = s'.type
  sources : List.Forall₂ M s.sources s'.sources
  target : M s.target s'.target
  body : Option.Rel (OpBody.Like N) s.body s'.body

variable {f f' : Folding} {op op' : OpDecl} {steps steps' : List Step}

theorem like_ofOp (h : Naming N M) (hf : f.Like N read f') (hop : op.Like N op') {t t' : Bytes}
    (ht : N t t') : List.Forall₂ (Like N M) (ofOp f op t) (ofOp f' op' t') := by
  have hsources : List.Forall₂ M (op.body.sources.map f.resolve) (op'.body.sources.map f'.resolve) :=
    List.rel_map (fun _ _ hs => h.names (hf.resolve hs)) hop.body.sources
  by_cases hconv : op.body.type = .conv
  · have hconv' : op'.body.type = .conv := hop.body.type_eq.symm.trans hconv
    rw [ofOp_conv hconv, ofOp_conv hconv']
    refine .cons ⟨hop.name, rfl, hsources, h.between ht, .some hop.body⟩ (.cons ?_ .nil)
    exact ⟨congrArg mergeName hop.name, rfl, .cons (h.between ht) .nil, h.names ht, .none⟩
  · have hconv' : op'.body.type ≠ .conv := fun heq => hconv (hop.body.type_eq.trans heq)
    rw [ofOp_plain hconv, ofOp_plain hconv']
    exact .cons ⟨hop.name, hop.body.type_eq, hsources, h.names ht, .some hop.body⟩ .nil

theorem agree_expand (h : Naming N M) (hf : f.Like N read f') (hop : op.Like N op') :
    Agree (List.Forall₂ (Like N M)) (expand f op) (expand f' op') := by
  have houtputs := hop.body.outputs
  unfold expand
  generalize outputs op.body = ts at houtputs
  generalize outputs op'.body = ts' at houtputs
  cases houtputs with
  | nil => exact .error _ _
  | cons ht hrest =>
    cases hrest with
    | nil =>
      refine .ok ?_
      rw [hf.isFolded_eq hop]
      split
      · exact .nil
      · exact like_ofOp h hf hop ht
    | cons _ _ => exact .error _ _

theorem agree_ofSources (h : Naming N M) (hf : f.Like N read f') {g g' : Sources}
    (hg : g.Like N read g') :
    Agree (List.Forall₂ (Like N M)) (ofSources g f).result (ofSources g' f').result := by
  simp only [ofSources, Traced.result_bind, Traced.result_ofExcept, Traced.result_tell,
    Traced.result_pure]
  refine (agree_mapM hg.ops fun _ _ hop => agree_expand h hf hop).bind ?_
  intro parts parts' hparts
  exact .ok (List.rel_flatten hparts)

theorem weights_imp {R : Bytes → Bytes → Prop} (hR : Relator.RightUnique R)
    {steps steps' : List Step}
    (hsteps : List.Forall₂ (fun s s' => s.type = s'.type ∧ List.Forall₂ R s.sources s'.sources)
      steps steps') {t t' : Bytes} (ht : R t t') (hw : (weights steps).contains t = true) :
    (weights steps').contains t' = true := by
  obtain ⟨s, hs, hconv, hsource⟩ := exists_of_mem_weights.mp hw
  obtain ⟨s', hs', htype, hsources⟩ := exists_right_of_forall₂ hsteps hs
  refine exists_of_mem_weights.mpr ⟨s', hs', htype ▸ hconv, ?_⟩
  obtain ⟨hlt, rfl⟩ := List.getElem?_eq_some_iff.mp hsource
  have hlt' : 1 < s'.sources.length := hsources.length_eq ▸ hlt
  have hrel : R s.sources[1] s'.sources[1] := hsources.get hlt hlt'
  rw [List.getElem?_eq_getElem hlt', hR hrel ht]

/-- The same constants are read as weights. -/
theorem contains_weights_eq (hM : Relator.BiUnique M)
    (h : List.Forall₂ (Like N M) steps steps') {t t' : Bytes} (ht : M t t') :
    (weights steps).contains t = (weights steps').contains t' := by
  rw [Bool.eq_iff_iff]
  constructor
  · exact weights_imp hM.2 (h.imp fun _ _ hs => ⟨hs.type, hs.sources⟩) ht
  · -- the other way round the names are related by the converse of `M`
    refine weights_imp (R := flip M) hM.1.flip ?_ ht
    exact (h.imp fun _ _ hs => ⟨hs.type.symm, hs.sources.flip⟩).flip

end Step

/-! ## Ids -/

/-- A parameter of a variant. -/
inductive ParamSource.Like (N : Bytes → Bytes → Prop) (read : FileReader) :
    ParamSource → ParamSource → Prop
  | fed {i i' : InputDecl} (h : i.Like N i') : Like N read (.fed i) (.fed i')
  | stored {c c' : ConstDecl} (h : c.Like N read c') : Like N read (.stored c) (.stored c')

/-- A step of a variant, with the same ids. -/
structure NumberedStep.Like (N M : Bytes → Bytes → Prop) (n n' : NumberedStep) : Prop where
  step : n.step.Like N M n'.step
  inputs : n.inputs = n'.inputs

namespace Numbering

/-- The numbered variant of a graph. -/
structure Like (N M : Bytes → Bytes → Prop) (read : FileReader) (n n' : Numbering) : Prop where
  params : List.Forall₂ (ParamSource.Like N read) n.params n'.params
  steps : List.Forall₂ (NumberedStep.Like N M) n.steps n'.steps

variable {inputs inputs' : List InputDecl} {consts consts' : List ConstDecl}

theorem like_paramSources (hN : Relator.BiUnique N)
    (hi : List.Forall₂ (InputDecl.Like N) inputs inputs')
    (hc : List.Forall₂ (ConstDecl.Like N read) consts consts') :
    List.Forall₂ (ParamSource.Like N read) (paramSources inputs consts)
      (paramSources inputs' consts') := by
  have htable := ConstDecl.tablesAlike hN hc
  unfold paramSources
  refine List.rel_append (List.rel_map ?_ hi) (List.rel_map ?_ (List.rel_filter ?_ hc))
  · intro i i' hi
    obtain ⟨hnone, hnone'⟩ | ⟨c, c', hsome, hsome', hlike⟩ := htable.lookup hi.tensor
    · simp only [hnone, hnone']
      exact .fed hi
    · simp only [hsome, hsome']
      exact .stored hlike
  · intro c c' hlike
    exact .stored hlike
  · intro c c' hlike
    simp only [Bool.not_eq_true', ← Bool.not_eq_true, contains_names]
    exact not_congr (List.rel_mem hN hlike.tensor (InputDecl.forall₂_tensor hi))

/-- The tensors known in a variant, with the same ids. -/
structure Known.Like (M : Bytes → Bytes → Prop) (m m' : Known) : Prop where
  size : m.size = m'.size
  ids : TablesAlike M (fun x y => x.1 = y.1) m m'

theorem Known.Like.insert (hM : Relator.BiUnique M) {m m' : Known} (h : Known.Like M m m')
    {k k' : Bytes} (hk : M k k') {id id' : Nat} (hid : id = id') (line line' : Int) :
    Known.Like M (m.insert k (id, line)) (m'.insert k' (id', line')) := by
  refine ⟨?_, h.ids.insert hM hk hid⟩
  have hcontains := h.ids.contains_eq hk
  simp only [Std.TreeMap.size_insert, hcontains, h.size]

theorem like_knownParams (h : Naming N M) (hi : List.Forall₂ (InputDecl.Like N) inputs inputs')
    (hc : List.Forall₂ (ConstDecl.Like N read) consts consts') :
    Known.Like M (knownParams inputs consts) (knownParams inputs' consts') := by
  have hinputs : Known.Like M
      (inputs.foldl (fun (m : Known) i => m.insert i.tensor (m.size, i.line)) ∅)
      (inputs'.foldl (fun (m : Known) i => m.insert i.tensor (m.size, i.line)) ∅) := by
    refine List.rel_foldl ?_ ⟨rfl, .empty⟩ hi
    intro m m' hm i i' hi
    exact hm.insert h.unique (h.names hi.tensor) hm.size _ _
  refine List.rel_foldl ?_ hinputs hc
  intro m m' hm c c' hlike
  simp only [hm.ids.contains_eq (h.names hlike.tensor)]
  split
  · exact hm
  · exact hm.insert h.unique (h.names hlike.tensor) hm.size _ _

theorem agree_lookup {m m' : Known} (hm : Known.Like M m m') {t t' : Bytes} (ht : M t t')
    (w w' : Std.TreeSet Bytes) (line line' : Int) :
    Agree Eq (lookup w m line t) (lookup w' m' line' t') := by
  unfold lookup
  obtain ⟨hnone, hnone'⟩ | ⟨x, x', hsome, hsome', hid⟩ := hm.ids.lookup ht
  · rw [hnone, hnone']
    -- whether some step writes the tensor only decides which fault it is
    dsimp only
    split <;> split <;> exact .error _ _
  · rw [hsome, hsome']
    exact .ok hid

/-- Where numbering stands in a variant. -/
structure State.Like (N M : Bytes → Bytes → Prop) (s s' : State) : Prop where
  known : Known.Like M s.known s'.known
  next : s.next = s'.next
  done : List.Forall₂ (NumberedStep.Like N M) s.done s'.done

theorem agree_step (hM : Relator.BiUnique M) {s s' : State} (hs : s.Like N M s') {step step' : Step}
    (hstep : step.Like N M step') (w w' : Std.TreeSet Bytes) :
    Agree (State.Like N M) (s.step w step) (s'.step w' step') := by
  unfold State.step
  refine (agree_mapM hstep.sources fun t t' ht =>
    agree_lookup hs.known ht w w' step.line step'.line).bind ?_
  intro ids ids' hids
  obtain ⟨hnone, hnone'⟩ | ⟨x, x', hsome, hsome', -⟩ := hs.known.ids.lookup hstep.target
  · simp only [hnone, hnone']
    refine .ok ⟨hs.known.insert hM hstep.target hs.next _ _, congrArg (· + 1) hs.next, ?_⟩
    exact .cons ⟨hstep, List.forall₂_eq_eq_eq ▸ hids⟩ hs.done
  · simp only [hsome, hsome']
    exact .error _ _

theorem agree_ofSteps (h : Naming N M) (hi : List.Forall₂ (InputDecl.Like N) inputs inputs')
    (hc : List.Forall₂ (ConstDecl.Like N read) consts consts') {steps steps' : List Step}
    (hsteps : List.Forall₂ (Step.Like N M) steps steps') :
    Agree (Like N M read) (ofSteps inputs consts steps) (ofSteps inputs' consts' steps') := by
  have hparams := like_paramSources h.unique_names hi hc
  unfold ofSteps
  refine (agree_foldlM hsteps (fun s s' _ _ hs hstep => agree_step h.unique hs hstep _ _)
    ⟨like_knownParams h hi hc, hparams.length_eq, .nil⟩).bind ?_
  intro s s' hs
  exact .ok ⟨hparams, List.rel_reverse hs.done⟩

end Numbering

/-! ## Lives, flags and nodes -/

theorem lastNeeded_eq {steps steps' : List NumberedStep}
    (h : List.Forall₂ (NumberedStep.Like N M) steps steps') (nInput : Nat) :
    lastNeeded nInput steps = lastNeeded nInput steps' := by
  have huses : Liveness.lastUses nInput steps = Liveness.lastUses nInput steps' := by
    unfold Liveness.lastUses
    rw [h.length_eq]
    refine congrArg Prod.fst (List.rel_foldl (P := Eq) ?_ rfl h)
    rintro s _ rfl n n' hn
    simp only [hn.inputs]
  unfold lastNeeded Liveness.throughConcats
  rw [huses]
  refine congrArg (fun s : Array Nat × Nat => s.1.toList) (List.rel_foldl (P := Eq) ?_ rfl h)
  rintro s _ rfl n n' hn
  simp only [hn.inputs, hn.step.type]

namespace Attributes

theorem ofBody_eq {b b' : Option OpBody} (h : Option.Rel (OpBody.Like N) b b') :
    ofBody b = ofBody b' := by
  cases h with
  | some h => exact h.flags_eq
  | none => rfl

theorem agree_check {s s' : Step} (h : s.Like N M s') : Agree Eq (check s) (check s') := by
  unfold check
  rw [ofBody_eq h.body]
  cases (ofBody s'.body).check with
  | ok u => exact .ok rfl
  | error e => exact .error _ _

theorem ofStep_eq {s s' : Step} (h : s.Like N M s') {next next' : Option Step}
    (hnext : Option.Rel (Step.Like N M) next next') : ofStep s next = ofStep s' next' := by
  cases hnext with
  | some hnext => simp only [ofStep, ofBody_eq h.body, h.type, hnext.type]
  | none => simp only [ofStep, ofBody_eq h.body, h.type]

end Attributes

theorem agree_stepFlags {steps steps' : List Step} (h : List.Forall₂ (Step.Like N M) steps steps') :
    Agree Eq (stepFlags steps) (stepFlags steps') := by
  rw [stepFlags_eq, stepFlags_eq]
  refine (agree_forM h fun _ _ hs => Attributes.agree_check hs).bind ?_
  intro _ _ _
  refine .ok (zipWith_eq_of_forall₂ h ?_ fun _ _ _ _ hs hnext => Attributes.ofStep_eq hs hnext)
  exact List.rel_append (List.rel_map (fun _ _ hs => .some hs) (List.forall₂_drop 1 h))
    (.cons .none .nil)

theorem Compile.nodes_eq {n n' : Numbering} (h : n.Like N M read n') (live : List Nat)
    (flags : List Flags) : Compile.nodes n live flags = Compile.nodes n' live flags := by
  unfold Compile.nodes
  refine map_eq_of_forall₂ (forall₂_zipIdx (forall₂_zip h.steps (live.zip flags)) 0) ?_
  rintro ⟨⟨s, last, flag⟩, i⟩ ⟨⟨s', last', flag'⟩, i'⟩ ⟨⟨hs, heq⟩, hi⟩
  replace hs : NumberedStep.Like N M s s' := hs
  cases heq
  cases hi
  simp only [hs.step.name, hs.step.type, hs.inputs, h.params.length_eq]

end NetImage
