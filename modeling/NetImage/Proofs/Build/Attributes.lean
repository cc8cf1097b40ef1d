import NetImage.Proofs.Build.FieldWidths
import NetImage.Proofs.Build.Operands

/-!
# NetImage.Proofs.Build.Attributes

The flags of the steps in closed form. A step's own attributes are checked before its word is packed,
so each stays in its bits, and what the next step adds to a pooling has a bit that nothing else uses.

* `Flags.Unpacks`: a word taken apart.
* `Step.Fits`: the attributes of a step fit their bits.
* `Step.Packed`: what the word of a step says, by the operator that it came from.
* `flags_of_steps`: the flags of the steps of a text.
-/

namespace NetImage

/-! ## Words -/

namespace Flags

/-- Bits 3 to 0 of a word. -/
def strideBits (word : UInt16) : Nat := (word.toBitVec.extractLsb 3 0).toNat

/-- Bits 7 to 4 of a word. -/
def kernelBits (word : UInt16) : Nat := (word.toBitVec.extractLsb 7 4).toNat

/-- One bit of a word. -/
def bit (word : UInt16) (i : Nat) : Bool := word.toBitVec.getLsbD i

/-- The attributes, each in bits of its own. -/
structure Unpacks (f : Flags) (word : UInt16) : Prop where
  stride : (strideBits word : Int) = f.stride
  kernelSize : (kernelBits word : Int) = f.kernelSize
  autoPadValid : bit word 8 = f.autoPadValid
  nhwcToNchw : bit word 9 = f.nhwcToNchw
  transposed : bit word 10 = f.transposed
  separateTiling : bit word 11 = f.separateTiling
  rest : ∀ i, 12 ≤ i → bit word i = false

theorem strideBits_eq (word : UInt16) : strideBits word = word.toNat % 16 := by
  simp [strideBits]

theorem kernelBits_eq (word : UInt16) : kernelBits word = word.toNat / 16 % 16 := by
  simp [kernelBits, Nat.shiftRight_eq_div_pow]

theorem bit_eq (word : UInt16) (i : Nat) : bit word i = word.toNat.testBit i := rfl

theorem bit_of_toInt {word : UInt16} {i : Nat} {b : Bool}
    (h : ((word.toNat / 2 ^ i % 2 : Nat) : Int) = b.toInt) : bit word i = b := by
  rw [bit_eq, Nat.testBit_eq_decide_div_mod_eq]
  cases b with
  | false =>
    have hzero : word.toNat / 2 ^ i % 2 = 0 := Int.ofNat_inj.mp h
    rw [hzero]
    rfl
  | true =>
    have hone : word.toNat / 2 ^ i % 2 = 1 := Int.ofNat_inj.mp h
    rw [hone]
    rfl

theorem check_eq_ok {f : Flags} :
    f.check = .ok () ↔ (0 ≤ f.stride ∧ f.stride ≤ 15) ∧ 0 ≤ f.kernelSize ∧ f.kernelSize ≤ 15 := by
  unfold check
  split
  · simp only [reduceCtorEq, false_iff]
    omega
  · split
    · simp only [reduceCtorEq, false_iff]
      omega
    · simp only [true_iff]
      omega

theorem toInt_bounds (b : Bool) : 0 ≤ b.toInt ∧ b.toInt ≤ 1 := by
  cases b <;> decide

theorem unpacks_bits {f : Flags} (h : f.check = .ok ()) : f.Unpacks f.bits := by
  have hvalue := toNat_bits h
  obtain ⟨⟨hs₀, hs₁⟩, hk₀, hk₁⟩ := check_eq_ok.mp h
  have ha := toInt_bounds f.autoPadValid
  have hb := toInt_bounds f.nhwcToNchw
  have hc := toInt_bounds f.transposed
  have hd := toInt_bounds f.separateTiling
  unfold value at hvalue
  refine ⟨?_, ?_, bit_of_toInt ?_, bit_of_toInt ?_, bit_of_toInt ?_, bit_of_toInt ?_, ?_⟩
  · rw [strideBits_eq]
    omega
  · rw [kernelBits_eq]
    omega
  · omega
  · omega
  · omega
  · omega
  · intro i hi
    have hlt : f.bits.toNat < 2 ^ 12 := by omega
    rw [bit_eq]
    exact Nat.testBit_lt_two_pow (hlt.trans_le (Nat.pow_le_pow_right (by norm_num) hi))

end Flags

/-! ## Steps -/

open Attributes (firstOf ofBody ofStep)

/-- Only convolutions and poolings have attributes. -/
theorem Attributes.ofBody_cases (b : OpBody) :
    (∃ source weights bias target strides pad, b = .conv source weights bias target strides pad) ∨
    (∃ source target kernel strides pad, b = .maxPool source target kernel strides pad) ∨
    ofBody (some b) = {} := by
  cases b with
  | conv source weights bias target strides pad => exact .inl ⟨_, _, _, _, _, _, rfl⟩
  | maxPool source target kernel strides pad => exact .inr (.inl ⟨_, _, _, _, _, rfl⟩)
  | plain type sources targets => exact .inr (.inr rfl)
  | concat sources target axis => exact .inr (.inr rfl)
  | dropout source target mask => exact .inr (.inr rfl)
  | squeeze source target axes => exact .inr (.inr rfl)

/-- The attributes that a step was declared with fit four bits each. -/
structure Step.Fits (s : Step) : Prop where
  conv : ∀ source weights bias target strides pad,
    s.body = some (.conv source weights bias target strides pad) →
      0 ≤ firstOf strides ∧ firstOf strides ≤ 15
  maxPool : ∀ source target kernel strides pad,
    s.body = some (.maxPool source target kernel strides pad) →
      (0 ≤ firstOf strides ∧ firstOf strides ≤ 15) ∧ 0 ≤ firstOf kernel ∧ firstOf kernel ≤ 15

/-- What the word of a step says, if `next` is the step behind it. -/
structure Step.Packed (s : Step) (next : Option Step) (word : UInt16) : Prop where
  conv : s.type = .conv → ∃ source weights bias target strides pad,
    s.body = some (.conv source weights bias target strides pad) ∧
      Flags.strideBits word = firstOf strides ∧ Flags.kernelBits word = 0 ∧
      (Flags.bit word 8 = true ↔ pad = .valid)
  maxPool : s.type = .maxPool → ∃ source target kernel strides pad,
    s.body = some (.maxPool source target kernel strides pad) ∧
      Flags.strideBits word = firstOf strides ∧ Flags.kernelBits word = firstOf kernel ∧
      Flags.bit word 8 = false
  other : s.type ≠ .conv → s.type ≠ .maxPool →
    Flags.strideBits word = 0 ∧ Flags.kernelBits word = 0 ∧ Flags.bit word 8 = false
  layout : Flags.bit word 9 = true ↔
    s.type = .maxPool ∧ ∃ t, next = some t ∧ t.type = .reshape
  rest : ∀ i, 10 ≤ i → Flags.bit word i = false

/-- An operator of a type with attributes has a body with them. -/
structure OpBody.Typed (b : OpBody) : Prop where
  conv : b.type = .conv → ∃ source weights bias target strides pad,
    b = .conv source weights bias target strides pad
  maxPool : b.type = .maxPool → ∃ source target kernel strides pad,
    b = .maxPool source target kernel strides pad

theorem OpBody.typed_of_ne {b : OpBody} (hconv : b.type ≠ .conv) (hpool : b.type ≠ .maxPool) :
    b.Typed :=
  ⟨fun h => absurd h hconv, fun h => absurd h hpool⟩

theorem typed_of_parse {text : Bytes} {decls : List Decl} (h : parse text = .ok decls) {op : OpDecl}
    (hop : .op op ∈ decls) : op.body.Typed := by
  refine forall_of_parse (P := fun d => ∀ op, d = .op op → op.body.Typed) ?_ h _ hop op rfl
  intro line head
  cases head
  case const =>
    rintro tensor - type - dims - data - d hd op rfl
    cases Head.const_eq_ok hd
  case input =>
    rintro tensor - channels - height - width - d hd op rfl
    cases hd
  case conv =>
    rintro name - source - weights - bias - target - strides - pad - d hd op rfl
    cases hd
    exact ⟨fun _ => ⟨_, _, _, _, _, _, rfl⟩, fun h => absurd h (by simp only [OpBody.type]; decide)⟩
  case maxPool =>
    rintro name - source - target - kernel - strides - pad - d hd op rfl
    cases hd
    exact ⟨fun h => absurd h (by simp only [OpBody.type]; decide), fun _ => ⟨_, _, _, _, _, rfl⟩⟩
  all_goals
    simp only [Yields, Head.build, Head.unary, Head.binary]
    intros
    rename_i hd op hop
    cases hop
    cases hd
    refine OpBody.typed_of_ne ?_ ?_ <;> simp only [OpBody.type] <;> decide

/-- A step of a type with attributes has a body with them, and the others have no attributes. -/
structure Step.Typed (s : Step) : Prop where
  conv : s.type = .conv → ∃ source weights bias target strides pad,
    s.body = some (.conv source weights bias target strides pad)
  maxPool : s.type = .maxPool → ∃ source target kernel strides pad,
    s.body = some (.maxPool source target kernel strides pad)
  other : s.type ≠ .conv → s.type ≠ .maxPool → ofBody s.body = {}

theorem Step.typed_main {op : OpDecl} (h : op.body.Typed) (f : Folding) : (main f op).Typed := by
  refine ⟨?_, ?_, ?_⟩
  · intro htype
    obtain ⟨source, weights, bias, target, strides, pad, hbody⟩ := h.conv htype
    exact ⟨source, weights, bias, target, strides, pad, congrArg some hbody⟩
  · intro htype
    obtain ⟨source, target, kernel, strides, pad, hbody⟩ := h.maxPool htype
    exact ⟨source, target, kernel, strides, pad, congrArg some hbody⟩
  · intro hconv hpool
    obtain ⟨_, _, _, _, _, _, hbody⟩ | ⟨_, _, _, _, _, hbody⟩ | hnone := Attributes.ofBody_cases op.body
    · exact absurd (congrArg OpBody.type hbody) hconv
    · exact absurd (congrArg OpBody.type hbody) hpool
    · exact hnone

theorem Step.typed_merge (op : OpDecl) : (merge op).Typed :=
  ⟨fun h => absurd (show OpType.convMerge = .conv from h) (by decide),
    fun h => absurd (show OpType.convMerge = .maxPool from h) (by decide), fun _ _ => rfl⟩

theorem typed_of_steps {text : Bytes} {decls : List Decl} {sources : Sources} {folding : Folding}
    {steps : List Step} (hparse : parse text = .ok decls)
    (hsources : Sources.ofDecls decls = .ok sources)
    (hfolding : (Folding.ofSources sources).result = .ok folding)
    (hsteps : (Step.ofSources sources folding).result = .ok steps) : ∀ s ∈ steps, s.Typed := by
  obtain ⟨rfl, hnamed⟩ := Sources.ofDecls_eq_ok hsources
  have hfolds := Folding.folds_of_ofSources hnamed.consts hfolding
  obtain ⟨-, rfl⟩ := Step.ofSources_eq_ok hfolds hsteps
  intro s hs
  obtain ⟨op, hop, hs⟩ := List.mem_flatMap.mp hs
  have htyped : op.body.Typed :=
    typed_of_parse hparse (Sources.mem_byKind_ops.mp (List.mem_of_mem_filter hop))
  rw [Step.ofOp_eq, List.mem_cons] at hs
  rcases hs with rfl | hs
  · exact Step.typed_main htyped folding
  · split at hs
    · rw [List.mem_singleton.mp hs]
      exact Step.typed_merge op
    · cases hs

namespace Attributes

theorem check_iff {s : Step} : check s = .ok () ↔ (ofBody s.body).check = .ok () := by
  unfold check
  cases (ofBody s.body).check with
  | ok u => simp
  | error e => simp

theorem check_eq_ok {s : Step} : check s = .ok () ↔ s.Fits := by
  rw [check_iff, Flags.check_eq_ok]
  constructor
  · rintro ⟨hstride, hkernel⟩
    refine ⟨?_, ?_⟩
    · intro source weights bias target strides pad hbody
      rw [hbody] at hstride
      exact hstride
    · intro source target kernel strides pad hbody
      rw [hbody] at hstride hkernel
      exact ⟨hstride, hkernel⟩
  · rintro ⟨hconv, hpool⟩
    have hzero : (0 : Int) ≤ 0 ∧ (0 : Int) ≤ 15 := by decide
    cases hbody : s.body with
    | none => exact ⟨hzero, hzero⟩
    | some b =>
      obtain ⟨_, _, _, _, _, _, rfl⟩ | ⟨_, _, _, _, _, rfl⟩ | hnone := ofBody_cases b
      · exact ⟨hconv _ _ _ _ _ _ hbody, hzero⟩
      · exact hpool _ _ _ _ _ hbody
      · rw [hnone]
        exact ⟨hzero, hzero⟩

theorem ofBody_rest (body : Option OpBody) :
    (ofBody body).transposed = false ∧ (ofBody body).separateTiling = false := by
  cases body with
  | none => exact ⟨rfl, rfl⟩
  | some b =>
    obtain ⟨_, _, _, _, _, _, rfl⟩ | ⟨_, _, _, _, _, rfl⟩ | hnone := ofBody_cases b
    · exact ⟨rfl, rfl⟩
    · exact ⟨rfl, rfl⟩
    · rw [hnone]
      exact ⟨rfl, rfl⟩

theorem layout_ofStep {s : Step} {next : Option Step} :
    (ofStep s next).nhwcToNchw = true ↔
      s.type = .maxPool ∧ ∃ t, next = some t ∧ t.type = .reshape := by
  cases next with
  | none => simp [ofStep]
  | some t => simp [ofStep]

/-- What the next step adds is not looked at again, and always fits. -/
theorem packed_ofStep {s : Step} (hs : s.Typed) (hfits : s.Fits) (next : Option Step) :
    s.Packed next (ofStep s next).bits := by
  have hcheck : (ofStep s next).check = .ok () := check_iff.mp (check_eq_ok.mpr hfits)
  have hword := Flags.unpacks_bits hcheck
  have hstride : (Flags.strideBits (ofStep s next).bits : Int) = (ofBody s.body).stride :=
    hword.stride
  have hkernel : (Flags.kernelBits (ofStep s next).bits : Int) = (ofBody s.body).kernelSize :=
    hword.kernelSize
  have hpad : Flags.bit (ofStep s next).bits 8 = (ofBody s.body).autoPadValid := hword.autoPadValid
  refine ⟨?_, ?_, ?_, ?_, ?_⟩
  · intro htype
    obtain ⟨source, weights, bias, target, strides, pad, hbody⟩ := hs.conv htype
    rw [hbody] at hstride hkernel hpad
    refine ⟨source, weights, bias, target, strides, pad, hbody, hstride, Int.ofNat_inj.mp hkernel, ?_⟩
    rw [hpad]
    exact decide_eq_true_iff
  · intro htype
    obtain ⟨source, target, kernel, strides, pad, hbody⟩ := hs.maxPool htype
    rw [hbody] at hstride hkernel hpad
    exact ⟨source, target, kernel, strides, pad, hbody, hstride, hkernel, hpad⟩
  · intro hconv hpool
    rw [hs.other hconv hpool] at hstride hkernel hpad
    exact ⟨Int.ofNat_inj.mp hstride, Int.ofNat_inj.mp hkernel, hpad⟩
  · rw [hword.nhwcToNchw, layout_ofStep]
  · intro i hi
    obtain ⟨htransposed, htiling⟩ := ofBody_rest s.body
    obtain rfl | rfl | hi : i = 10 ∨ i = 11 ∨ 12 ≤ i := by omega
    · exact hword.transposed.trans htransposed
    · exact hword.separateTiling.trans htiling
    · exact hword.rest i hi

end Attributes

/-! ## All steps -/

theorem getElem?_nexts {steps : List Step} {i : Nat} (hi : i < steps.length) :
    ((steps.drop 1).map some ++ [none])[i]? = some steps[i + 1]? := by
  by_cases hnext : i + 1 < steps.length
  · rw [List.getElem?_append_left (by simp only [List.length_map, List.length_drop]; omega),
      List.getElem?_map, List.getElem?_drop, Nat.add_comm 1 i, List.getElem?_eq_getElem hnext,
      Option.map_some]
  · have hlast : i = ((steps.drop 1).map some).length := by
      simp only [List.length_map, List.length_drop]
      omega
    have hnone : steps[i + 1]? = none := List.getElem?_eq_none (by omega)
    rw [hnone, hlast, List.getElem?_append_right (le_refl _), Nat.sub_self]
    rfl

theorem stepFlags_eq_ok {steps : List Step} {flags : List Flags} :
    stepFlags steps = .ok flags ↔ (∀ s ∈ steps, s.Fits) ∧
      List.zipWith ofStep steps ((steps.drop 1).map some ++ [none]) = flags := by
  rw [stepFlags_eq, seq_eq_ok, forM_eq_ok]
  simp only [Attributes.check_eq_ok, pure, Except.pure, Except.ok.injEq]

theorem getElem?_flags {steps : List Step} {flags : List Flags} (h : stepFlags steps = .ok flags)
    {i : Nat} {s : Step} (hs : steps[i]? = some s) :
    flags[i]? = some (ofStep s steps[i + 1]?) := by
  rw [← (stepFlags_eq_ok.mp h).2]
  exact List.getElem?_zipWith_eq_some.mpr
    ⟨s, _, hs, getElem?_nexts (List.getElem?_eq_some_iff.mp hs).1, rfl⟩

theorem length_stepFlags {steps : List Step} {flags : List Flags} (h : stepFlags steps = .ok flags) :
    flags.length = steps.length := by
  rw [← (stepFlags_eq_ok.mp h).2]
  simp only [List.length_zipWith, List.length_append, List.length_map, List.length_drop,
    List.length_singleton]
  omega

/-- The fault is that of the first step whose attributes do not fit. -/
theorem fault_of_stepFlags {steps : List Step} {fault : Fault} (h : stepFlags steps = .error fault) :
    ∃ before s after e, steps = before ++ s :: after ∧ (∀ t ∈ before, t.Fits) ∧ ¬s.Fits ∧
      fault = .flags s.name s.line e := by
  rw [stepFlags_eq] at h
  rcases bind_eq_error.mp h with h | ⟨_, -, h⟩
  · obtain ⟨before, s, after, rfl, hbefore, hs⟩ := forM_eq_error h
    have hfits : ¬s.Fits := by
      intro hfits
      rw [Attributes.check_eq_ok.mpr hfits] at hs
      cases hs
    obtain ⟨e, rfl⟩ : ∃ e, fault = .flags s.name s.line e := by
      unfold Attributes.check at hs
      split at hs
      · cases hs
      · rename_i e _
        exact ⟨e, (Except.error.inj hs).symm⟩
    exact ⟨before, s, after, e, rfl, fun t ht => Attributes.check_eq_ok.mp (hbefore t ht), hfits, rfl⟩
  · cases h

/-- **Flags in closed form.** The steps of a text get flags if and only if the attributes of all of
them fit; otherwise the fault is structural and names the first step whose attributes do not. The word
of each step, which is that of its node, then has every attribute in its own bits. -/
theorem flags_of_steps {text : Bytes} {decls : List Decl} {sources : Sources} {folding : Folding}
    {steps : List Step} (hparse : parse text = .ok decls)
    (hsources : Sources.ofDecls decls = .ok sources)
    (hfolding : (Folding.ofSources sources).result = .ok folding)
    (hsteps : (Step.ofSources sources folding).result = .ok steps) :
    ((∃ flags, stepFlags steps = .ok flags) ↔ ∀ s ∈ steps, s.Fits) ∧
    (∀ fault, stepFlags steps = .error fault → fault.kind = .structural ∧
      ∃ before s after e, steps = before ++ s :: after ∧ (∀ t ∈ before, t.Fits) ∧ ¬s.Fits ∧
        fault = .flags s.name s.line e) ∧
    ∀ flags, stepFlags steps = .ok flags → flags.length = steps.length ∧
      ∀ (i : Nat) (s : Step) (f : Flags), steps[i]? = some s → flags[i]? = some f →
        s.Packed steps[i + 1]? f.bits ∧
        ∀ numbering, Numbering.ofSteps sources.inputs (sources.consts.map folding.reshape) steps =
            .ok numbering →
          ∃ n, (Compile.nodes numbering (lastNeeded numbering.params.length numbering.steps)
              flags)[i]? = some n ∧ n.op = s.type ∧ n.flags = f := by
  refine ⟨⟨?_, ?_⟩, ?_, ?_⟩
  · rintro ⟨flags, hflags⟩
    exact (stepFlags_eq_ok.mp hflags).1
  · intro hfits
    exact ⟨_, stepFlags_eq_ok.mpr ⟨hfits, rfl⟩⟩
  · intro fault hfault
    obtain ⟨before, s, after, e, hsplit, hbefore, hs, rfl⟩ := fault_of_stepFlags hfault
    exact ⟨rfl, before, s, after, e, hsplit, hbefore, hs, rfl⟩
  · intro flags hflags
    refine ⟨length_stepFlags hflags, ?_⟩
    intro i s f hs hf
    have hmem := List.mem_of_getElem? hs
    refine ⟨?_, ?_⟩
    · rw [getElem?_flags hflags hs, Option.some.injEq] at hf
      rw [← hf]
      exact Attributes.packed_ofStep (typed_of_steps hparse hsources hfolding hsteps s hmem)
        ((stepFlags_eq_ok.mp hflags).1 s hmem) _
    · intro numbering hnumbering
      let st : Compile.Indexed decls :=
        ⟨sources, folding, steps, numbering, hsources, hfolding, hsteps, hnumbering⟩
      obtain ⟨ns, hns, hreads⟩ := st.reads_at hs
      have hi := (List.getElem?_eq_some_iff.mp hns).1
      rw [← Compile.length_lastNeeded numbering.params.length] at hi
      have hlive := List.getElem?_eq_getElem hi
      exact ⟨_, Compile.getElem?_nodes.mpr ⟨ns, _, f, hns, hlive, hf, rfl⟩,
        congrArg Step.type hreads.1, rfl⟩

/-- A convolution without padding, two poolings and a reshape behind the second of them. -/
def pooledTwice : Bytes := ascii
  "Input ToTensor=x Channels=1 Height=8 Width=8
Const ToTensor=w Type=Float Dims=1x1x1x1 Data=0.5
Const ToTensor=s Type=Int64 Dims=2 Data=1,-1
Conv Name=c FromTensor=x WeightsTensor=w BiasesTensor=- ToTensor=y Strides=2,7 AutoPad=VALID
MaxPool Name=p FromTensor=y ToTensor=z KernelShape=15,1 Strides=0 AutoPad=VALID
MaxPool Name=q FromTensor=z ToTensor=u KernelShape=3,3 Strides=15,20 AutoPad=NOTSET
Reshape Name=r FromTensor=u ShapeTensor=s ToTensor=v
"

theorem pooledTwice_flags : ∃ (plan : Plan) (steps : List Step),
    planOf pooledTwice { scale := 8 } = .ok plan ∧
      plan.nodes.map (fun n => n.flags.bits) = [0x102, 0, 0xf0, 0x23f, 0] ∧
      (∀ s ∈ steps, s.Fits) ∧
      ∀ (i : Nat) (n : Node), plan.nodes[i]? = some n →
        ∃ s, steps[i]? = some s ∧ n.op = s.type ∧ s.Packed steps[i + 1]? n.flags.bits := by
  have hwords : (planOf pooledTwice { scale := 8 }).map
      (fun plan => plan.nodes.map fun n => n.flags.bits) = .ok [0x102, 0, 0xf0, 0x23f, 0] := by
    decide +kernel
  obtain ⟨plan, hplan, hwords⟩ := map_eq_ok.mp hwords
  obtain ⟨decls, overflows, hparse, hrun⟩ := exists_of_planOf hplan
  obtain ⟨st⟩ := Compile.planned_of_plan hrun
  obtain ⟨hfits, -, hflags⟩ := flags_of_steps hparse st.hsources st.hfolding st.hsteps
  refine ⟨plan, st.steps, hplan, hwords, hfits.mp ⟨_, st.hflags⟩, ?_⟩
  intro i n hn
  have hnodes := hn
  rw [st.nodes_eq] at hnodes
  obtain ⟨ns, last, f, hns, -, hf, -⟩ := Compile.getElem?_nodes.mp hnodes
  obtain ⟨s, hs, -⟩ := st.reads_of_numbered hns
  obtain ⟨hpacked, hnode⟩ := (hflags st.flags st.hflags).2 i s f hs hf
  obtain ⟨n', hn', htype, rfl⟩ := hnode st.numbering st.hnumbering
  rw [← st.nodes_eq, hn] at hn'
  obtain rfl := Option.some.inj hn'
  exact ⟨s, hs, htype, hpacked⟩

end NetImage
