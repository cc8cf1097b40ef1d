import NetImage.Build.Compile
import NetImage.Proofs.Build.Numbering

/-!
# NetImage.Proofs.Build.Compile

A compilation that succeeds, stage by stage. What is said of a compiled model is said of what its
stages have found.

* `Compile.Indexed`: the stages up to the ids.
* `Compile.Planned`: the stages up to the plan.
* `Compile.Finished`: the plan, what is written for it, and its image.
* `finished_of_compile`: every model compiled from a text is the end of such stages.
-/

namespace NetImage
namespace Compile

/-- What the stages up to the ids have found. -/
structure Indexed (decls : List Decl) where
  sources : Sources
  folding : Folding
  steps : List Step
  numbering : Numbering
  hsources : Sources.ofDecls decls = .ok sources
  hfolding : (Folding.ofSources sources).result = .ok folding
  hsteps : (Step.ofSources sources folding).result = .ok steps
  hnumbering :
    Numbering.ofSteps sources.inputs (sources.consts.map folding.reshape) steps = .ok numbering

namespace Indexed

variable {decls : List Decl} (st : Indexed decls)

theorem sources_eq : st.sources = Sources.byKind decls := (Sources.ofDecls_eq_ok st.hsources).1

theorem named : st.sources.Named := (Sources.ofDecls_eq_ok st.hsources).2

theorem folds : Folding.Folds st.sources st.sources.ops st.folding :=
  Folding.folds_of_ofSources st.named.consts st.hfolding

/-- The constants in the shapes that their squeezes leave. -/
def consts : List ConstDecl := st.sources.consts.map st.folding.reshape

theorem map_tensor_consts :
    st.consts.map ConstDecl.tensor = st.sources.consts.map ConstDecl.tensor := by
  rw [consts, List.map_map]
  refine List.map_congr_left ?_
  intro c _
  simp only [Function.comp_apply, Folding.reshape]
  split <;> rfl

theorem nodup_consts : (st.consts.map ConstDecl.tensor).Nodup := by
  rw [st.map_tensor_consts]
  exact st.named.consts

theorem outputs_eq : ∀ op ∈ st.sources.ops, Step.outputs op.body = [op.output] :=
  (Step.ofSources_eq_ok st.folds st.hsteps).1

theorem steps_eq : st.steps = st.sources.kept.flatMap fun op => Step.ofOp st.folding op op.output :=
  (Step.ofSources_eq_ok st.folds st.hsteps).2

theorem params_eq : st.numbering.params = Numbering.paramSources st.sources.inputs st.consts :=
  (Numbering.ofSteps_eq_ok st.named.inputs st.nodup_consts st.hnumbering).1

/-- The names of the parameters by id. -/
def names : List Bytes := Numbering.paramNames st.sources.inputs st.consts

theorem nodup_names : (st.names ++ st.steps.map Step.target).Nodup :=
  (Numbering.ofSteps_eq_ok st.named.inputs st.nodup_consts st.hnumbering).2.1

theorem inOrder : Numbering.InOrder st.names st.steps st.numbering.steps :=
  (Numbering.ofSteps_eq_ok st.named.inputs st.nodup_consts st.hnumbering).2.2

theorem reads : List.Forall₂ (Numbering.Reads (st.names ++ st.steps.map Step.target)) st.steps
    st.numbering.steps :=
  st.inOrder.forall₂

theorem length_params : st.numbering.params.length = st.names.length := by
  rw [names, ← Numbering.map_tensor_paramSources st.nodup_consts, ← st.params_eq, List.length_map]

end Indexed

theorem size_raise (nInput last : Nat) (live : Array Nat) (inputs : List Nat) :
    (Liveness.raise nInput last live inputs).size = live.size := by
  unfold Liveness.raise
  induction inputs generalizing live with
  | nil => rfl
  | cons id inputs ih =>
    rw [List.foldl_cons, ih]
    split
    · rfl
    · exact Array.size_modify

theorem length_lastNeeded (nInput : Nat) (steps : List NumberedStep) :
    (lastNeeded nInput steps).length = steps.length := by
  -- each pass keeps the size of its array
  have hpass : ∀ (f : Array Nat × Nat → NumberedStep → Array Nat × Nat),
      (∀ s step, (f s step).1.size = s.1.size) → ∀ (steps : List NumberedStep) s,
      (steps.foldl f s).1.size = s.1.size := by
    intro f hf steps
    induction steps with
    | nil => intro s; rfl
    | cons step steps ih =>
      intro s
      rw [List.foldl_cons, ih, hf]
  rw [lastNeeded, Array.length_toList, Liveness.throughConcats, hpass, Liveness.lastUses, hpass]
  · simp
  · intro s step
    exact size_raise _ _ _ _
  · intro s step
    simp only
    split
    · exact size_raise _ _ _ _
    · rfl

/-- What the stages up to the plan have found. -/
structure Planned (decls : List Decl) (samples : List Sample) (config : Config)
    (read : FileReader) (plan : Plan) extends Indexed decls where
  flags : List Flags
  params : Parameters
  tests : TestSet
  hflags : stepFlags steps = .ok flags
  hparams : (Parameters.place ⟨config, samples, read, Step.weights steps⟩
    numbering.params).result = .ok params
  htests : (TestSet.ofSamples config.scale samples).result = .ok tests
  hplan : plan =
    { config := config
      nInput := numbering.params.length
      nodes := nodes numbering (lastNeeded numbering.params.length numbering.steps) flags
      params := params.records
      region1 := params.region1
      region2 := params.region2
      samples := tests.bytes
      labels := tests.labels }

theorem planned_of_plan {decls : List Decl} {samples : List Sample} {config : Config}
    {read : FileReader} {p : Plan} {overflows : Nat}
    (h : (Compile.plan decls samples config read).result = .ok (p, overflows)) :
    Nonempty (Planned decls samples config read p) := by
  unfold Compile.plan at h
  simp only [Traced.result_bind, Traced.result_ofExcept, Traced.result_pure] at h
  obtain ⟨sources, hsources, h⟩ := bind_eq_ok.mp h
  obtain ⟨folding, hfolding, h⟩ := bind_eq_ok.mp h
  obtain ⟨steps, hsteps, h⟩ := bind_eq_ok.mp h
  obtain ⟨numbering, hnumbering, h⟩ := bind_eq_ok.mp h
  obtain ⟨flags, hflags, h⟩ := bind_eq_ok.mp h
  obtain ⟨params, hparams, h⟩ := bind_eq_ok.mp h
  obtain ⟨tests, htests, h⟩ := bind_eq_ok.mp h
  cases h
  exact ⟨⟨⟨sources, folding, steps, numbering, hsources, hfolding, hsteps, hnumbering⟩, flags, params,
    tests, hflags, hparams, htests, rfl⟩⟩

namespace Planned

variable {decls : List Decl} {samples : List Sample} {config : Config} {read : FileReader}
  {p : Plan} (st : Planned decls samples config read p)

/-- What the parameters were placed with. -/
def context : Parameters.Context := ⟨config, samples, read, Step.weights st.steps⟩

theorem contains_weights (t : Bytes) :
    st.context.weights.contains t = true ↔ (Sources.byKind decls).IsWeights t := by
  rw [← st.sources_eq]
  exact Step.contains_weights st.folds st.steps_eq

theorem length_flags : st.flags.length = st.numbering.steps.length := by
  have hflags := st.hflags
  rw [stepFlags_eq] at hflags
  obtain ⟨-, hflags⟩ := seq_eq_ok.mp hflags
  rw [← Except.ok.inj hflags, ← st.reads.length_eq]
  simp only [List.length_zipWith, List.length_append, List.length_map, List.length_drop,
    List.length_singleton]
  omega

end Planned

/-- A bundle holds the regions and the model section of its plan. -/
theorem stream_of_ofPlan {p : Plan} {b : Bundle} (h : Bundle.ofPlan p = .ok b) :
    b.stream .parameters = p.region1 ∧ b.stream .parameters2 = p.region2 ∧
      p.encode = .ok (b.stream .model) := by
  unfold Bundle.ofPlan at h
  obtain ⟨model, hmodel, h⟩ := bind_eq_ok.mp h
  cases h
  exact ⟨rfl, rfl, hmodel⟩

/-- What all stages have found. -/
structure Finished (decls : List Decl) (samples : List Sample) (config : Config)
    (read : FileReader) (out : Compiled) extends Planned decls samples config read out.plan where
  hrun : (Compile.plan decls samples config read).result = .ok (out.plan, out.overflows)
  hbundle : Bundle.ofPlan out.plan = .ok out.bundle
  himage : Image.assemble (config.numSlots * config.intermediateValuesSize) config.nvmSize
    (Stream.all.map out.bundle.stream) = .ok out.image

theorem finished_of_compileDecls {decls : List Decl} {samples : List Sample} {config : Config}
    {read : FileReader} {out : Compiled}
    (h : (compileDecls decls samples config read).result = .ok out) :
    Nonempty (Finished decls samples config read out) := by
  unfold compileDecls at h
  simp only [Traced.result_bind, Traced.result_ofExcept, Traced.result_tell,
    Traced.result_pure] at h
  obtain ⟨⟨p, overflows⟩, hplan, h⟩ := bind_eq_ok.mp h
  obtain ⟨bundle, hbundle, h⟩ := bind_eq_ok.mp h
  obtain ⟨image, himage, h⟩ := bind_eq_ok.mp h
  cases h
  obtain ⟨planned⟩ := planned_of_plan hplan
  exact ⟨⟨planned, hplan, mapError_eq_ok.mp hbundle, mapError_eq_ok.mp himage⟩⟩

end Compile

theorem finished_of_compile {text : Bytes} {samples : List Sample} {config : Config}
    {read : FileReader} {out : Compiled}
    (h : (compile text samples config read).result = .ok out) :
    ∃ decls, parse text = .ok decls ∧
      Nonempty (Compile.Finished decls samples config read out) := by
  unfold compile at h
  split at h
  · cases h
  · rename_i decls hparse
    exact ⟨decls, hparse, Compile.finished_of_compileDecls (mapError_eq_ok.mp h)⟩

/-- When everything is written only the image can fail. -/
theorem compile_of_bundle {text : Bytes} {decls : List Decl} {samples : List Sample} {config : Config}
    {read : FileReader} {p : Plan} {overflows : Nat} {b : Bundle} (hparse : parse text = .ok decls)
    (hrun : (Compile.plan decls samples config read).result = .ok (p, overflows))
    (hbundle : Bundle.ofPlan p = .ok b) :
    (compile text samples config read).result =
      ((Image.assemble (config.numSlots * config.intermediateValuesSize) config.nvmSize
        (Stream.all.map b.stream)).map fun image => ⟨p, b, image, overflows⟩).mapError
          fun e => .fault (.image e) := by
  simp only [compile, hparse, compileDecls, Traced.result_bind, Traced.result_ofExcept,
    Traced.result_tell, Traced.result_pure, hrun]
  show ((Bundle.ofPlan p).mapError Fault.model >>= fun b =>
    Compile.assemble config b >>= fun image =>
      Except.ok (Compiled.mk p b image overflows)).mapError CompileError.fault = _
  rw [hbundle]
  show (Compile.assemble config b >>= fun image =>
    Except.ok (Compiled.mk p b image overflows)).mapError CompileError.fault = _
  rw [Compile.assemble]
  cases Image.assemble (config.numSlots * config.intermediateValuesSize) config.nvmSize
    (Stream.all.map b.stream) <;> rfl

/-- The plan of a text that is compiled without samples and without files. -/
def planOf (text : Bytes) (config : Config) : Except CompileError Plan := do
  let decls ← (parse text).mapError .parse
  let r ← (Compile.plan decls [] config fun _ => .error []).result.mapError .fault
  pure r.1

theorem exists_of_planOf {text : Bytes} {config : Config} {p : Plan} (h : planOf text config = .ok p) :
    ∃ decls overflows, parse text = .ok decls ∧
      (Compile.plan decls [] config fun _ => .error []).result = .ok (p, overflows) := by
  unfold planOf at h
  obtain ⟨decls, hparse, h⟩ := bind_eq_ok.mp h
  obtain ⟨⟨p, overflows⟩, hrun, h⟩ := bind_eq_ok.mp h
  cases h
  exact ⟨decls, overflows, mapError_eq_ok.mp hparse, mapError_eq_ok.mp hrun⟩

end NetImage
