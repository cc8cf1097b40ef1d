import NetImage.Proofs.Variant.Parameters

/-!
# NetImage.Proofs.Variant.Compile

Variants compile alike. What is written for a plan does not depend on the names of its parameters, so
a graph and a variant of it either both fail or both give the same streams, source files and image.

* `Plan.agree_encode`, `Bundle.agree_ofPlan`: names are not written.
* `agree_compileDecls`: the whole compiler.
* `toOption_compileDecls`: what comes out, if names are changed by a function.
-/

namespace NetImage

variable {N M : Bytes → Bytes → Prop}

/-! ## Writing -/

/-- The plan of a variant: only the names of the parameters differ. -/
structure Plan.Like (N : Bytes → Bytes → Prop) (p p' : Plan) : Prop where
  params : List.Forall₂ (Param.Like N) p.params p'.params
  rest : p' = { p with params := p'.params }

namespace Plan

theorem agree_checkParam {p p' : Param} (h : p.Like N p') (position : Nat) :
    Agree Eq (checkParam p position) (checkParam p' position) := by
  rw [h.rest]
  unfold checkParam
  exact .ite Iff.rfl (.error _ _) (.ite Iff.rfl (.error _ _) (.ok rfl))

theorem agree_check {p p' : Plan} (h : p.Like N p') : Agree Eq p.check p'.check := by
  have hnodes : p.nodes = p'.nodes := by rw [h.rest]
  have hinputs : p.nInput = p'.nInput := by rw [h.rest]
  unfold check
  rw [h.params.length_eq, hinputs, hnodes]
  refine .ite Iff.rfl (.error _ _) ?_
  refine (agree_forM (forall₂_zipIdx h.params 0) ?_).bind fun _ _ _ => Agree.refl (fun _ => rfl) _
  rintro ⟨q, i⟩ ⟨q', _⟩ ⟨hq, rfl⟩
  exact agree_checkParam hq i

theorem modelBytes_eq {p p' : Plan} (h : p.Like N p') : p.modelBytes = p'.modelBytes := by
  obtain ⟨hparams, hrest⟩ := h
  have hfold : ∀ buffer : ByteArray, p.params.foldl (fun b q => extend b (Record.param q)) buffer =
      p'.params.foldl (fun b q => extend b (Record.param q)) buffer := by
    intro buffer
    refine List.rel_foldl (P := Eq) ?_ rfl hparams
    rintro b _ rfl q q' hq
    rw [hq.rest]
    rfl
  rw [hrest]
  simp only [modelBytes, hfold]
  rfl

theorem agree_encode {p p' : Plan} (h : p.Like N p') : Agree Eq p.encode p'.encode := by
  have hnodes : p.nodes = p'.nodes := by rw [h.rest]
  unfold encode
  rw [hnodes, modelBytes_eq h]
  refine (agree_check h).bind ?_
  intro _ _ _
  exact .refl (fun _ => rfl) _

end Plan

theorem Bundle.agree_ofPlan {p p' : Plan} (h : p.Like N p') :
    Agree Eq (Bundle.ofPlan p) (Bundle.ofPlan p') := by
  unfold Bundle.ofPlan
  refine (Plan.agree_encode h).bind ?_
  rintro model _ rfl
  rw [h.rest]
  exact .ok rfl

/-! ## Compiling -/

theorem Compile.agree_plan (h : Naming N M) {decls decls' : List Decl} {read : FileReader}
    (hdecls : (Sources.byKind decls).Like N read (Sources.byKind decls')) (samples : List Sample)
    (config : Config) :
    Agree (fun r r' => r.1.Like N r'.1 ∧ r.2 = r'.2) (plan decls samples config read).result
      (plan decls' samples config read).result := by
  -- stage by stage; samples are the same in both runs
  simp only [plan, Traced.result_bind, Traced.result_ofExcept, Traced.result_pure]
  refine (Sources.agree_ofDecls h.unique_names hdecls).bind fun g g' hg => ?_
  refine (Folding.agree_ofSources h.unique_names hg).bind fun f f' hf => ?_
  refine (Step.agree_ofSources h hf hg).bind fun steps steps' hsteps => ?_
  have hconsts : List.Forall₂ (ConstDecl.Like N read) (g.consts.map f.reshape)
      (g'.consts.map f'.reshape) := List.rel_map (fun _ _ hc => hf.reshape hc) hg.consts
  refine (Numbering.agree_ofSteps h hg.inputs hconsts hsteps).bind fun n n' hn => ?_
  refine (agree_stepFlags hsteps).bind fun flags _ hflags => ?_
  cases hflags
  have hctx : Parameters.Context.Like N ⟨config, samples, read, Step.weights steps⟩
      ⟨config, samples, read, Step.weights steps'⟩ :=
    ⟨rfl, rfl, rfl, fun ht => Step.contains_weights_eq h.unique hsteps (h.names ht)⟩
  refine (Parameters.agree_place hctx hn.params).bind fun params params' hparams => ?_
  refine (Agree.refl (fun _ => rfl) _).bind fun tests _ htests => ?_
  cases htests
  refine .ok ⟨⟨hparams.records, ?_⟩, ?_⟩
  · rw [hn.params.length_eq, lastNeeded_eq hn.steps, nodes_eq hn, hparams.region1, hparams.region2]
  · rw [hparams.overflows]

/-- The compiled variant: only the names of the parameters in its plan differ. -/
structure Compiled.Like (N : Bytes → Bytes → Prop) (c c' : Compiled) : Prop where
  plan : c.plan.Like N c'.plan
  rest : c' = { c with plan := c'.plan }

theorem agree_compileDecls (h : Naming N M) {decls decls' : List Decl} {read : FileReader}
    (hdecls : (Sources.byKind decls).Like N read (Sources.byKind decls')) (samples : List Sample)
    (config : Config) :
    Agree (Compiled.Like N) (compileDecls decls samples config read).result
      (compileDecls decls' samples config read).result := by
  simp only [compileDecls, Traced.result_bind, Traced.result_ofExcept, Traced.result_tell,
    Traced.result_pure]
  refine (Compile.agree_plan h hdecls samples config).bind ?_
  rintro ⟨plan, overflows⟩ ⟨plan', _⟩ ⟨hplan, rfl⟩
  refine ((Bundle.agree_ofPlan hplan).mapError _ _).bind ?_
  rintro bundle _ rfl
  refine (Agree.refl (fun _ => rfl) _).bind ?_
  rintro image _ rfl
  exact .ok ⟨hplan, rfl⟩

/-! ## Outcomes -/

/-- The same result with the parameters of its plan renamed. -/
def Compiled.renameParams (ρ : Bytes → Bytes) (c : Compiled) : Compiled :=
  { c with plan := { c.plan with params := c.plan.params.map fun p => { p with name := ρ p.name } } }

theorem Compiled.renameParams_id : Compiled.renameParams id = id := by
  funext c
  simp only [Compiled.renameParams, id, List.map_id']

theorem Compiled.Like.eq_renameParams {ρ : Bytes → Bytes} {c c' : Compiled} (h : c.Like N c')
    (hN : ∀ ⦃t t' : Bytes⦄, N t t' → t' = ρ t) : c' = c.renameParams ρ := by
  have hparams : c'.plan.params = c.plan.params.map fun p => { p with name := ρ p.name } := by
    rw [← List.map_id c'.plan.params]
    refine (map_eq_of_forall₂ h.plan.params ?_).symm
    intro p p' hp
    rw [id, hp.rest, hN hp.name]
  rw [h.rest, h.plan.rest, hparams]
  rfl

theorem toOption_compileDecls {ρ : Bytes → Bytes} (h : Naming N M)
    (hN : ∀ ⦃t t' : Bytes⦄, N t t' → t' = ρ t) {decls decls' : List Decl} {read : FileReader}
    (hdecls : (Sources.byKind decls).Like N read (Sources.byKind decls')) (samples : List Sample)
    (config : Config) :
    (compileDecls decls' samples config read).result.toOption =
      (compileDecls decls samples config read).result.toOption.map (Compiled.renameParams ρ) := by
  refine ((agree_compileDecls h hdecls samples config).imp ?_).toOption_eq
  intro c c' hc
  exact hc.eq_renameParams hN

/-- If the names stay, nothing changes. -/
theorem toOption_compileDecls_eq {decls decls' : List Decl} {read : FileReader}
    (hdecls : (Sources.byKind decls).Like Eq read (Sources.byKind decls')) (samples : List Sample)
    (config : Config) :
    (compileDecls decls' samples config read).result.toOption =
      (compileDecls decls samples config read).result.toOption := by
  rw [toOption_compileDecls .eq (ρ := id) (fun _ _ h => h.symm) hdecls, Compiled.renameParams_id,
    Option.map_id, id_eq]

end NetImage
