import NetImage.Proofs.Variant.Compile

/-!
# NetImage.Proofs.Variant.Renaming

The names of tensors. They say which operator reads what, and they are kept in the records of a plan,
but they are not written. The names that the compiler makes for convolutions must not be among them.

* `Decl.rename`, `tensorsOf`: other names for the tensors of a graph.
* `compileDecls_rename`: a graph under other names compiles to the same model.
-/

namespace NetImage

/-! ## Renaming -/

/-- The operator with the tensors it reads and writes renamed. -/
def OpBody.rename (ρ : Bytes → Bytes) : OpBody → OpBody
  | .plain type sources targets => .plain type (sources.map ρ) (targets.map ρ)
  | .concat sources target axis => .concat (sources.map ρ) (ρ target) axis
  | .conv source weights bias target strides pad =>
    .conv (ρ source) (ρ weights) (bias.map ρ) (ρ target) strides pad
  | .dropout source target mask => .dropout (ρ source) (ρ target) (mask.map ρ)
  | .maxPool source target kernel strides pad => .maxPool (ρ source) (ρ target) kernel strides pad
  | .squeeze source target axes => .squeeze (ρ source) (ρ target) axes

/-- The declaration with its tensors renamed. -/
def Decl.rename (ρ : Bytes → Bytes) : Decl → Decl
  | .input i => .input { i with tensor := ρ i.tensor }
  | .const c => .const { c with tensor := ρ c.tensor }
  | .op d => .op { d with body := d.body.rename ρ }

/-- The tensors that a graph names. -/
def tensorsOf (decls : List Decl) : List Bytes := decls.flatMap fun d => d.sources ++ d.targets

variable {ρ : Bytes → Bytes} {N : Bytes → Bytes → Prop}

theorem OpBody.like_rename {b : OpBody} (h : ∀ t ∈ b.sources ++ b.targets, N t (ρ t)) :
    b.Like N (b.rename ρ) := by
  have hnames : ∀ names : List Bytes, (∀ t ∈ names, N t (ρ t)) →
      List.Forall₂ N names (names.map ρ) := by
    intro names hnames
    rw [List.forall₂_map_right_iff, List.forall₂_same]
    exact hnames
  rw [List.forall_mem_append] at h
  obtain ⟨hsources, htargets⟩ := h
  cases b with
  | plain type sources targets => exact .plain type (hnames _ hsources) (hnames _ htargets)
  | concat sources target axis =>
    exact .concat axis (hnames _ hsources) (htargets _ List.mem_cons_self)
  | conv source weights bias target strides pad =>
    simp only [sources, targets, List.cons_append, List.nil_append, List.forall_mem_cons]
      at hsources htargets
    obtain ⟨hsource, hweights, hbias⟩ := hsources
    refine .conv strides pad hsource hweights ?_ htargets.1
    cases bias with
    | some b => exact .some (hbias b List.mem_cons_self)
    | none => exact .none
  | dropout source target mask =>
    exact .dropout mask (mask.map ρ) (hsources _ List.mem_cons_self) (htargets _ List.mem_cons_self)
  | maxPool source target kernel strides pad =>
    exact .maxPool kernel strides pad (hsources _ List.mem_cons_self) (htargets _ List.mem_cons_self)
  | squeeze source target axes =>
    exact .squeeze axes (hsources _ List.mem_cons_self) (htargets _ List.mem_cons_self)

theorem Decl.like_rename {d : Decl} (h : ∀ t ∈ d.sources ++ d.targets, N t (ρ t))
    (read : FileReader) : d.Like N read (d.rename ρ) := by
  cases d with
  | input i => exact .input ⟨h _ List.mem_cons_self, rfl, rfl, rfl⟩
  | const c => exact .const ⟨h _ List.mem_cons_self, rfl, rfl, .same _ _⟩
  | op op => exact .op ⟨rfl, OpBody.like_rename h⟩

/-! ## Names between a convolution and its merge -/

/-- The names of some tensors, old and new. -/
def Renames (ρ : Bytes → Bytes) (names : List Bytes) (t t' : Bytes) : Prop := t ∈ names ∧ t' = ρ t

/-- The names of their steps, old and new. -/
def RenamesSteps (ρ : Bytes → Bytes) (names : List Bytes) (t t' : Bytes) : Prop :=
  Renames ρ names t t' ∨
    ∃ u u', Renames ρ names u u' ∧ t = Step.beforeMerge u ∧ t' = Step.beforeMerge u'

/-- No tensor has the name of what is between a convolution and its merge. -/
theorem ne_beforeMerge {t u : Bytes} (h : ¬ ascii "_before_merge" <:+ t) :
    t ≠ Step.beforeMerge u := by
  rintro rfl
  exact h (List.suffix_append _ _)

theorem naming_renames {names : List Bytes} (hinj : Set.InjOn ρ {t | t ∈ names})
    (hold : ∀ t ∈ names, ¬ ascii "_before_merge" <:+ t)
    (hnew : ∀ t ∈ names, ¬ ascii "_before_merge" <:+ ρ t) :
    Naming (Renames ρ names) (RenamesSteps ρ names) where
  unique := by
    -- a name of the graph is never one of those made by the compiler, neither old nor new
    constructor
    · rintro a b c (⟨ha, rfl⟩ | ⟨u, _, ⟨hu, rfl⟩, rfl, rfl⟩)
        (⟨hb, hc⟩ | ⟨v, _, ⟨hv, rfl⟩, rfl, hc⟩)
      · exact hinj ha hb hc
      · exact absurd hc (ne_beforeMerge (hnew a ha))
      · exact absurd hc.symm (ne_beforeMerge (hnew b hb))
      · exact congrArg _ (hinj hu hv (List.append_cancel_right hc))
    · rintro a b c (⟨ha, rfl⟩ | ⟨u, _, ⟨hu, rfl⟩, rfl, rfl⟩)
        (⟨hb, rfl⟩ | ⟨v, _, ⟨hv, rfl⟩, hc, rfl⟩)
      · rfl
      · exact absurd hc (ne_beforeMerge (hold a ha))
      · exact absurd rfl (ne_beforeMerge (hold _ hb))
      · rw [List.append_cancel_right hc]
  names h := .inl h
  between h := .inr ⟨_, _, h, rfl, rfl⟩

/-- A graph whose tensors get other names fails if it failed before, and otherwise compiles to the
same model but for the names of the parameters in its plan. -/
theorem compileDecls_rename {decls : List Decl} (hinj : Set.InjOn ρ {t | t ∈ tensorsOf decls})
    (hold : ∀ t ∈ tensorsOf decls, ¬ ascii "_before_merge" <:+ t)
    (hnew : ∀ t ∈ tensorsOf decls, ¬ ascii "_before_merge" <:+ ρ t) (samples : List Sample)
    (config : Config) (read : FileReader) :
    (compileDecls (decls.map (Decl.rename ρ)) samples config read).result.toOption =
      (compileDecls decls samples config read).result.toOption.map (Compiled.renameParams ρ) := by
  refine toOption_compileDecls (naming_renames hinj hold hnew) (fun _ _ h => h.2)
    (Sources.like_byKind ?_) samples config
  rw [List.forall₂_map_right_iff, List.forall₂_same]
  intro d hd
  exact Decl.like_rename (fun t ht => ⟨List.mem_flatMap.mpr ⟨d, hd, ht⟩, rfl⟩) read

/-- A convolution with squeezed weights, a dropout with a mask and a sum. -/
def namedGraph : List Decl :=
  [.input ⟨1, ascii "in", 1, 1, 1⟩,
   .const ⟨2, ascii "raw", .float, [1, 1, 1, 1, 2], .inline [ascii "1", ascii "-0.5"]⟩,
   .op ⟨3, ascii "s", .squeeze (ascii "raw") (ascii "kernel") [0]⟩,
   .op ⟨4, ascii "c", .conv (ascii "in") (ascii "kernel") none (ascii "out") [1, 1] .valid⟩,
   .op ⟨5, ascii "d", .dropout (ascii "out") (ascii "kept") (some (ascii "mask"))⟩,
   .op ⟨6, ascii "a", .plain .add [ascii "kept", ascii "in"] [ascii "sum"]⟩]

theorem namedGraph_reversed :
    ∃ c, (compileDecls namedGraph [] { scale := 8, nvmSize := 2000 } fun _ => .error []).result =
        .ok c ∧
      c.plan.params.map Param.name = [ascii "in", ascii "raw"] ∧
      (compileDecls (namedGraph.map (Decl.rename List.reverse)) []
        { scale := 8, nvmSize := 2000 } fun _ => .error []).result.toOption =
        some (c.renameParams List.reverse) := by
  have hnames : (compileDecls namedGraph [] { scale := 8, nvmSize := 2000 } fun _ =>
      .error []).result.map (fun c => c.plan.params.map Param.name) =
      .ok [ascii "in", ascii "raw"] := by
    decide +kernel
  obtain ⟨c, hc, hparams⟩ := map_eq_ok.mp hnames
  refine ⟨c, hc, hparams, ?_⟩
  rw [compileDecls_rename List.reverse_injective.injOn (by decide) (by decide), hc]
  rfl

end NetImage
