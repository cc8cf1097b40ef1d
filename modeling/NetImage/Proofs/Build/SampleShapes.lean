import NetImage.Proofs.Build.Compile
import NetImage.Proofs.Build.Placement

/-!
# NetImage.Proofs.Build.SampleShapes

Which input the shapes of the samples are compared with. The samples feed the first input that no
constant supplies, but only the first parameter is compared, and that is the first input of the source
or the constant that supplies it.

* `checkSamples_eq_ok`: the comparison.
* `fits_of_place`: it is made if the first parameter is an input.
* `place_reshaped`, `ofSamples_reshaped`: otherwise the shapes are not looked at.
-/

namespace NetImage

/-! ## Runs that agree -/

namespace Traced

variable {ε α β σ : Type}

theorem bind_congr_ok {x : Traced ε α} {f g : α → Traced ε β}
    (h : ∀ a, x.result = .ok a → f a = g a) : x >>= f = x >>= g := by
  show andThen x f = andThen x g
  unfold andThen
  cases hx : x.result with
  | error e => rfl
  | ok a => simp only [h a hx]

/-- Two passes agree if their steps do, wherever the steps before can lead to. -/
theorem foldFrom_congr {f : σ → α → Traced ε σ} {g : σ → β → Traced ε σ} {P : σ → Prop}
    {R : α → β → Prop} (hfg : ∀ s a b, P s → R a b → f s a = g s b)
    (hP : ∀ s a s', P s → (f s a).result = .ok s' → P s') {as : List α} {bs : List β}
    (h : List.Forall₂ R as bs) {s : σ} (hs : P s) (log : Array Event) :
    foldFrom f log s as = foldFrom g log s bs := by
  induction h generalizing s log with
  | nil => rfl
  | @cons a b as bs hab _ ih =>
    simp only [foldFrom, ← hfg s a b hs hab]
    cases hstep : (f s a).result with
    | error e => rfl
    | ok s' => exact ih (hP s a s' hs hstep) _

end Traced

/-! ## Shapes -/

/-- The sample has the shape of the input. -/
def Sample.Fits (s : Sample) (i : InputDecl) : Prop :=
  s.channels = i.channels ∧ s.height = i.height ∧ s.width = i.width

/-- The samples differ in their shapes at most. -/
def Sample.Reshaped (s s' : Sample) : Prop := s.data = s'.data ∧ s.label = s'.label

/-- The first input that no constant supplies. -/
def Sources.firstFed? (g : Sources) : Option InputDecl :=
  g.inputs.find? fun i => !(g.consts.map ConstDecl.tensor).contains i.tensor

namespace Parameters

theorem checkSamples_eq_ok {i : InputDecl} {samples : List Sample} :
    checkSamples i samples = .ok () ↔ ∀ s ∈ samples, s.Fits i := by
  simp only [checkSamples, forM_eq_ok]
  constructor
  · intro h s hs
    obtain ⟨index, hindex⟩ := List.mem_iff_getElem?.mp hs
    have hs := h (s, index) (List.mem_zipIdx_iff_getElem?.mpr hindex)
    split at hs
    · rename_i hshape
      simpa [Sample.Fits] using hshape
    · cases hs
  · rintro h ⟨s, index⟩ hs
    obtain ⟨hc, hh, hw⟩ := h s (List.fst_mem_of_mem_zipIdx hs)
    simp only [hc, hh, hw, if_true]

variable {ctx : Context} {params : List ParamSource}

theorem fits_of_place {i : InputDecl} {out : Parameters}
    (h : (place ctx (.fed i :: params)).result = .ok out) : ∀ s ∈ ctx.samples, s.Fits i := by
  simp only [place, Traced.result_bind, Traced.result_fold, List.foldlM_cons] at h
  obtain ⟨_, h, -⟩ := bind_eq_ok.mp h
  obtain ⟨_, hfirst, -⟩ := bind_eq_ok.mp h
  simp only [State.add, State.addInput, if_true, Traced.result_bind, Traced.result_ofExcept] at hfirst
  obtain ⟨_, hcheck, -⟩ := bind_eq_ok.mp hfirst
  exact checkSamples_eq_ok.mp hcheck

theorem count_add {s s' : State} {p : ParamSource} (h : (s.add ctx p).result = .ok s') :
    s'.count = s.count + 1 := by
  cases p with
  | fed i =>
    rw [addInput_eq_ok h]
  | stored c =>
    simp only [State.add, State.addConst, Traced.result_bind, Traced.result_ofExcept] at h
    obtain ⟨_, -, h⟩ := bind_eq_ok.mp h
    obtain ⟨_, -, h⟩ := bind_eq_ok.mp h
    cases h
    rfl

theorem add_reshaped {s : State} {p : ParamSource} (hp : s.count ≠ 0 ∨ ∃ c, p = .stored c)
    (samples : List Sample) : s.add { ctx with samples := samples } p = s.add ctx p := by
  cases p with
  | fed i =>
    obtain hs : s.count ≠ 0 := by simpa using hp
    simp only [State.add, State.addInput, if_neg hs]
  | stored c => rfl

/-- If the first parameter is a constant, the samples are not looked at. -/
theorem place_reshaped (ctx : Context) (c : ConstDecl) (params : List ParamSource)
    (samples : List Sample) :
    place { ctx with samples := samples } (.stored c :: params) = place ctx (.stored c :: params) := by
  have hfold : ∀ start : State,
      Traced.fold (State.add { ctx with samples := samples }) start (.stored c :: params) =
        Traced.fold (State.add ctx) start (.stored c :: params) := by
    intro start
    simp only [Traced.fold, Traced.foldFrom, add_reshaped (.inr ⟨c, rfl⟩) samples]
    cases hfirst : (start.add ctx (.stored c)).result with
    | error e => rfl
    | ok s =>
      -- from the second parameter on no state counts nothing
      refine Traced.foldFrom_congr (P := fun s => s.count ≠ 0) (R := Eq) ?_ ?_
        (List.forall₂_same.mpr fun _ _ => rfl) ?_ _
      · rintro s a _ hs rfl
        exact add_reshaped (.inl hs) samples
      · intro s a s' _ h
        rw [count_add h]
        exact Nat.succ_ne_zero _
      · rw [count_add hfirst]
        exact Nat.succ_ne_zero _
  simp only [place, hfold]

end Parameters

theorem ofSamples_reshaped {scale : Int64} {samples samples' : List Sample}
    (h : List.Forall₂ Sample.Reshaped samples samples') :
    TestSet.ofSamples scale samples = TestSet.ofSamples scale samples' := by
  have hfold : ∀ start, Traced.fold (TestSet.State.add scale) start samples =
      Traced.fold (TestSet.State.add scale) start samples' := by
    intro start
    refine Traced.foldFrom_congr (P := fun _ => True) ?_ (fun _ _ _ _ _ => trivial) h trivial _
    rintro s a b - ⟨hdata, hlabel⟩
    simp only [TestSet.State.add, hdata, hlabel]
  simp only [TestSet.ofSamples, hfold]

/-! ## The first parameter -/

/-- The first parameter is the first input, unless a constant supplies it. -/
theorem Numbering.paramSources_cons (i : InputDecl) (inputs : List InputDecl)
    {consts : List ConstDecl} (hc : (consts.map ConstDecl.tensor).Nodup) :
    ∃ p ps, paramSources (i :: inputs) consts = p :: ps ∧
      (i.tensor ∉ consts.map ConstDecl.tensor → p = .fed i) ∧
      (i.tensor ∈ consts.map ConstDecl.tensor → ∃ c, p = .stored c) := by
  refine ⟨_, _, rfl, ?_, ?_⟩
  · intro hfree
    dsimp only
    split
    · rename_i c hfound
      obtain ⟨hmem, hname⟩ := (getElem?_table hc).mp hfound
      exact absurd (hname ▸ List.mem_map_of_mem hmem) hfree
    · rfl
  · intro hsupplied
    obtain ⟨c, hmem, hname⟩ := List.mem_map.mp hsupplied
    refine ⟨c, ?_⟩
    simp only [(getElem?_table hc).mpr ⟨hmem, hname⟩]

/-- The first input is fed, or a constant supplies it and the first that is fed is another one. -/
theorem Sources.inputs_of_firstFed? {g : Sources} {i : InputDecl} (h : g.firstFed? = some i) :
    ∃ j inputs, g.inputs = j :: inputs ∧ (j = i ∧ i.tensor ∉ g.consts.map ConstDecl.tensor ∨
      j ≠ i ∧ j.tensor ∈ g.consts.map ConstDecl.tensor) := by
  unfold firstFed? at h
  cases hinputs : g.inputs with
  | nil =>
    rw [hinputs] at h
    cases h
  | cons j inputs =>
    refine ⟨j, inputs, rfl, ?_⟩
    rw [hinputs, List.find?_cons] at h
    split at h
    · rename_i hfree
      obtain rfl := Option.some.inj h
      exact .inl ⟨rfl, by simpa using hfree⟩
    · rename_i hsupplied
      refine .inr ⟨?_, by simpa using hsupplied⟩
      rintro rfl
      have := List.find?_some h
      rw [hsupplied] at this
      cases this

namespace Compile

variable {decls : List Decl} {i : InputDecl}

/-- The parameters begin with the input that is fed first, if it is the first of all; otherwise with a
constant. -/
theorem Indexed.params_of_firstFed? (st : Indexed decls)
    (hfed : (Sources.byKind decls).firstFed? = some i) :
    ((Sources.byKind decls).inputs.head? = some i → ∃ ps, st.numbering.params = .fed i :: ps) ∧
      ((Sources.byKind decls).inputs.head? ≠ some i →
        ∃ c ps, st.numbering.params = .stored c :: ps) := by
  rw [← st.sources_eq] at hfed ⊢
  obtain ⟨j, inputs, hinputs, hj⟩ := Sources.inputs_of_firstFed? hfed
  obtain ⟨p, ps, hparams, hfree, hsupplied⟩ :=
    Numbering.paramSources_cons j inputs st.nodup_consts
  rw [st.params_eq, hinputs, hparams, List.head?_cons]
  rw [st.map_tensor_consts] at hfree hsupplied
  rcases hj with ⟨rfl, hnot⟩ | ⟨hne, hmem⟩
  · exact ⟨fun _ => ⟨ps, by rw [hfree hnot]⟩, fun hne => absurd rfl hne⟩
  · obtain ⟨c, rfl⟩ := hsupplied hmem
    exact ⟨fun heq => absurd (Option.some.inj heq) hne, fun _ => ⟨c, ps, rfl⟩⟩

theorem plan_reshaped (hfed : (Sources.byKind decls).firstFed? = some i)
    (hfirst : (Sources.byKind decls).inputs.head? ≠ some i) {samples samples' : List Sample}
    (h : List.Forall₂ Sample.Reshaped samples samples') (config : Config) (read : FileReader) :
    plan decls samples config read = plan decls samples' config read := by
  unfold plan
  refine Traced.bind_congr_ok fun sources hsources => ?_
  refine Traced.bind_congr_ok fun folding hfolding => ?_
  refine Traced.bind_congr_ok fun steps hsteps => ?_
  refine Traced.bind_congr_ok fun numbering hnumbering => ?_
  refine Traced.bind_congr_ok fun flags _ => ?_
  let st : Indexed decls :=
    ⟨sources, folding, steps, numbering, hsources, hfolding, hsteps, hnumbering⟩
  obtain ⟨c, ps, hparams⟩ := (st.params_of_firstFed? hfed).2 hfirst
  have hplace := Parameters.place_reshaped ⟨config, samples', read, Step.weights steps⟩ c ps samples
  rw [← hparams] at hplace
  rw [hplace, ofSamples_reshaped h]

end Compile

/-- **Samples and the input that they feed.** Let `i` be the first input that no constant supplies. If
it is the first input of the source, a source only compiles when every sample has its shape. If the
source has another input before it, the shapes of the samples do not matter: with any other shapes the
outcome is the same, with the same reports. -/
theorem sampleShapes_of_compile {text : Bytes} {decls : List Decl} {i : InputDecl}
    (hparse : parse text = .ok decls) (hfed : (Sources.byKind decls).firstFed? = some i)
    (samples : List Sample) (config : Config) (read : FileReader) :
    ((Sources.byKind decls).inputs.head? = some i → ∀ out,
      (compile text samples config read).result = .ok out → ∀ s ∈ samples, s.Fits i) ∧
    ((Sources.byKind decls).inputs.head? ≠ some i → ∀ samples',
      List.Forall₂ Sample.Reshaped samples samples' →
      compile text samples config read = compile text samples' config read) := by
  refine ⟨?_, ?_⟩
  · intro hfirst out hout
    obtain ⟨decls', hparse', ⟨st⟩⟩ := finished_of_compile hout
    cases hparse.symm.trans hparse'
    obtain ⟨ps, hparams⟩ := (st.params_of_firstFed? hfed).1 hfirst
    have hplace := st.hparams
    rw [hparams] at hplace
    exact Parameters.fits_of_place hplace
  · intro hfirst samples' hsamples
    simp only [compile, hparse, compileDecls,
      Compile.plan_reshaped hfed hfirst hsamples config read]

/-- An input that is fed, and one that a constant supplies. -/
def fedFirst : Bytes := ascii
  "Input ToTensor=x Channels=1 Height=1 Width=2
Input ToTensor=k Channels=1 Height=1 Width=1
Const ToTensor=k Type=Int64 Dims=1 Data=3
Add Name=a FromTensor1=x FromTensor2=k ToTensor=y
"

/-- The same inputs in the other order. -/
def suppliedFirst : Bytes := ascii
  "Input ToTensor=k Channels=1 Height=1 Width=1
Input ToTensor=x Channels=1 Height=1 Width=2
Const ToTensor=k Type=Int64 Dims=1 Data=3
Add Name=a FromTensor1=x FromTensor2=k ToTensor=y
"

def wideSample : Sample := ⟨1, 1, 2, [0, 0], 7⟩

/-- The values of `wideSample` one below the other. -/
def tallSample : Sample := ⟨1, 2, 1, [0, 0], 7⟩

/-- With the input that is fed in front, the sample that compiles has its shape. With the other input
in front, both samples compile, to the same image. -/
theorem wideSample_fits :
    (∃ out decls i,
      (compile fedFirst [wideSample] { scale := 8, nvmSize := 2000 } fun _ => .error []).result =
        .ok out ∧
      parse fedFirst = .ok decls ∧ (Sources.byKind decls).firstFed? = some i ∧
      (Sources.byKind decls).inputs.head? = some i ∧ wideSample.Fits i) ∧
    compile suppliedFirst [wideSample] { scale := 8, nvmSize := 2000 } (fun _ => .error []) =
      compile suppliedFirst [tallSample] { scale := 8, nvmSize := 2000 } fun _ => .error [] := by
  have hfedFirst : (parse fedFirst).map (fun decls => ((Sources.byKind decls).firstFed?,
      (Sources.byKind decls).inputs.head?)) =
      .ok (some ⟨1, ascii "x", 1, 1, 2⟩, some ⟨1, ascii "x", 1, 1, 2⟩) := by
    decide +kernel
  have hsuppliedFirst : (parse suppliedFirst).map (fun decls => ((Sources.byKind decls).firstFed?,
      (Sources.byKind decls).inputs.head?)) =
      .ok (some ⟨2, ascii "x", 1, 1, 2⟩, some ⟨1, ascii "k", 1, 1, 1⟩) := by
    decide +kernel
  refine ⟨?_, ?_⟩
  · have hok : (compile fedFirst [wideSample] { scale := 8, nvmSize := 2000 }
        fun _ => .error []).result.isOk = true := by
      decide +kernel
    obtain ⟨out, hout⟩ := exists_of_isOk hok
    obtain ⟨decls, hparse, hinputs⟩ := map_eq_ok.mp hfedFirst
    obtain ⟨hfed, hhead⟩ := Prod.mk.inj hinputs
    exact ⟨out, decls, _, hout, hparse, hfed, hhead,
      (sampleShapes_of_compile hparse hfed _ _ _).1 hhead out hout _ List.mem_cons_self⟩
  · obtain ⟨decls, hparse, hinputs⟩ := map_eq_ok.mp hsuppliedFirst
    obtain ⟨hfed, hhead⟩ := Prod.mk.inj hinputs
    refine (sampleShapes_of_compile hparse hfed _ _ _).2 ?_ _ (.cons ⟨rfl, rfl⟩ .nil)
    rw [hhead]
    decide +kernel

/-- A source compiles with a sample that does not have the shape of the first input that is fed. -/
theorem tallSample_not_fits :
    ∃ out decls i,
      (compile suppliedFirst [tallSample] { scale := 8, nvmSize := 2000 }
        fun _ => .error []).result = .ok out ∧
      parse suppliedFirst = .ok decls ∧ (Sources.byKind decls).firstFed? = some i ∧
      ¬ tallSample.Fits i := by
  have hok : (compile suppliedFirst [tallSample] { scale := 8, nvmSize := 2000 }
      fun _ => .error []).result.isOk = true := by
    decide +kernel
  have hinput : (parse suppliedFirst).map (fun decls => (Sources.byKind decls).firstFed?) =
      .ok (some ⟨2, ascii "x", 1, 1, 2⟩) := by
    decide +kernel
  obtain ⟨out, hout⟩ := exists_of_isOk hok
  obtain ⟨decls, hparse, hfed⟩ := map_eq_ok.mp hinput
  refine ⟨out, decls, _, hout, hparse, hfed, ?_⟩
  rintro ⟨-, hheight, -⟩
  cases hheight

end NetImage
