import NetImage.Proofs.Build.StoredConstants
import NetImage.Proofs.Model.Decoding
import NetImage.Proofs.Config

/-!
# NetImage.Proofs.Build.FieldWidths

Which numbers of a compiled model fit their fields. Counts, types, flags, dims and scales always do:
the parser, the configuration and the writer bound them. The number of inputs of the last node and
the places and sizes of parameters have no such bound, and are cut to their fields without an error.

* `ModelSection.Keeps`: all fields but those three are read back as they are in the plan.
* `ModelSection.Exact`: those three too.
* `Parameters.inRange_of_recorded`, `Compile.Indexed.inRange_of_mem_nodes`: the bounds of a plan.
* `exact_iff_of_compile`: when a compiled model is exact.
-/

namespace NetImage

/-- The attributes in their bits, stride and kernel size as wide as they are. -/
def Flags.value (f : Flags) : Int :=
  f.stride + 2 ^ 4 * f.kernelSize + 2 ^ 8 * f.autoPadValid.toInt + 2 ^ 9 * f.nhwcToNchw.toInt
    + 2 ^ 10 * f.transposed.toInt + 2 ^ 11 * f.separateTiling.toInt

theorem Flags.toNat_bits {f : Flags} (h : f.check = .ok ()) : (f.bits.toNat : Int) = f.value := by
  have hall : ∀ (s k : Fin 16) (a b c d : Bool),
      ((bits ⟨s.val, k.val, a, b, c, d⟩).toNat : Int) = value ⟨s.val, k.val, a, b, c, d⟩ := by
    decide +kernel
  obtain ⟨stride, kernelSize, a, b, c, d⟩ := f
  unfold check at h
  split at h
  · cases h
  · split at h
    · cases h
    · rename_i hs hk
      simp only [not_or, not_lt] at hs hk
      lift stride to Nat using hs.1
      lift kernelSize to Nat using hk.1
      exact hall ⟨stride, by omega⟩ ⟨kernelSize, by omega⟩ a b c d

/-- The record of a node but for the number of its inputs. -/
structure NodeRecord.Keeps (r : NodeRecord) (n : Node) (start : Nat) : Prop where
  inputStart : r.inputStart = start
  maxOutputId : (r.maxOutputId : Int) = n.maxOutputId
  op : (r.op : Int) = n.op.index
  flags : (r.flags : Int) = n.flags.value

/-- The record of a parameter but for its place and its size. -/
structure ParamRecord.Keeps (r : ParamRecord) (p : Param) : Prop where
  bitWidth : (r.bitWidth : Int) = p.type.bits
  slot : (r.slot : Int) = p.slot
  tileC : (r.tileC : Int) = p.tileC
  dims : r.dims.map Int.ofNat = List.replicate (dimsLen - p.dims.length) 1 ++ p.dims
  scale : (r.scale : Int) = p.scale

/-- The numbers of a plan, but for the numbers of inputs of its nodes and the places and sizes of its
parameters. -/
structure ModelSection.Keeps (m : ModelSection) (plan : Plan) : Prop where
  nodeCount : m.nodeCount = plan.nodes.length
  nInput : (m.nInput : Int) = plan.nInput
  nodes : ∀ (i : Nat) (n : Node), plan.nodes[i]? = some n →
    (m.node i).Keeps n (2 * inputTotal (plan.nodes.take i))
  params : ∀ (i : Nat) (p : Param), plan.params[i]? = some p → (m.param i).Keeps p
  outputs : ∀ i, i < plan.nodes.length → ((m.output i).scale : Int) = plan.config.scale.toInt

/-- The numbers of a plan. -/
structure ModelSection.Exact (m : ModelSection) (plan : Plan) : Prop extends m.Keeps plan where
  inputCounts : ∀ (i : Nat) (n : Node), plan.nodes[i]? = some n →
    (m.node i).inputCount = n.inputs.length
  offsets : ∀ (i : Nat) (p : Param), plan.params[i]? = some p → ((m.param i).offset : Int) = p.offset
  lengths : ∀ (i : Nat) (p : Param), plan.params[i]? = some p → ((m.param i).length : Int) = p.bytes

/-! ## Numbers that fit -/

/-- The bounds of a node that the writer does not check. -/
structure Node.InRange (n : Node) : Prop where
  op : 0 ≤ n.op.index ∧ n.op.index < OpType.table.length
  maxOutputId : 0 ≤ n.maxOutputId

/-- The bounds of a parameter. There is none from above for its place and its size. -/
structure Param.InRange (p : Param) : Prop where
  offset : 0 ≤ p.offset
  bytes : 0 ≤ p.bytes
  slot : 0 ≤ p.slot ∧ p.slot < 2 ^ 8
  tileC : 0 ≤ p.tileC ∧ p.tileC < 2 ^ 16
  dims : ∀ d ∈ p.dims, 0 ≤ d ∧ d < 2 ^ 16
  scale : 0 ≤ p.scale ∧ p.scale < 2 ^ 16

theorem NodeRecord.Holds.keeps {r : NodeRecord} {n : Node} {start : Nat} (h : r.Holds n start)
    (hn : n.InRange) (hmax : n.maxOutputId ≤ u16Max) (hflags : n.flags.check = .ok ()) :
    r.Keeps n start := by
  have hop := hn.op
  have hnonneg := hn.maxOutputId
  simp only [OpType.table, List.length_cons, List.length_nil] at hop
  simp only [u16Max] at hmax
  refine ⟨h.inputStart, ?_, ?_, ?_⟩
  · rw [h.maxOutputId]
    omega
  · rw [h.op]
    omega
  · rw [h.flags, Flags.toNat_bits hflags]

theorem ParamRecord.Holds.keeps {r : ParamRecord} {p : Param} (h : r.Holds p) (hp : p.InRange) :
    r.Keeps p := by
  refine ⟨h.bitWidth, ?_, ?_, ?_, ?_⟩
  · rw [h.slot, Int.emod_eq_of_lt hp.slot.1 hp.slot.2]
  · rw [h.tileC, Int.emod_eq_of_lt hp.tileC.1 hp.tileC.2]
  · rw [h.dims]
    refine (List.map_congr_left ?_).trans (List.map_id _)
    intro d hd
    rcases List.mem_append.mp hd with hd | hd
    · rw [List.eq_of_mem_replicate hd]
      rfl
    · exact Int.emod_eq_of_lt (hp.dims d hd).1 (hp.dims d hd).2
  · rw [h.scale, Int.emod_eq_of_lt hp.scale.1 hp.scale.2]

theorem emod_eq_iff_lt {a m : Int} (hm : 0 < m) (ha : 0 ≤ a) : a % m = a ↔ a < m := by
  constructor
  · intro h
    rw [← h]
    exact Int.emod_lt_of_pos a hm
  · exact Int.emod_eq_of_lt ha

/-- Only the last node can have more inputs than two bytes can count: the others must leave room in
the array for those behind them. -/
theorem Plan.Encodable.inputs_lt {plan : Plan} (h : plan.Encodable) {i : Nat} {n : Node}
    (hn : plan.nodes[i]? = some n) (hi : i + 1 < plan.nodes.length) : n.inputs.length < 2 ^ 16 := by
  have hstart := h.starts (i + 1) hi
  have htotal : inputTotal (plan.nodes.take (i + 1)) =
      inputTotal (plan.nodes.take i) + n.inputs.length := by
    rw [List.take_add_one, hn]
    simp [inputTotal]
  simp only [u16Max] at hstart
  omega

namespace ModelSection

variable {m : ModelSection} {plan : Plan}

theorem Describes.keeps (h : m.Describes plan) (hplan : plan.Encodable)
    (hnodes : ∀ n ∈ plan.nodes, n.InRange) (hparams : ∀ p ∈ plan.params, p.InRange)
    (hscale : 0 ≤ plan.config.scale.toInt ∧ plan.config.scale.toInt < 2 ^ 16) : m.Keeps plan := by
  refine ⟨h.nodeCount, h.nInput, ?_, ?_, ?_⟩
  · intro i n hn
    have hmem := List.mem_of_getElem? hn
    exact (h.nodes i n hn).keeps (hnodes n hmem) (hplan.maxOutputIds n hmem) (hplan.flags n hmem)
  · intro i p hp
    exact (h.params i p hp).keeps (hparams p (List.mem_of_getElem? hp))
  · intro i hi
    rw [h.outputs i hi, Int.emod_eq_of_lt hscale.1 hscale.2]
    exact Int.toNat_of_nonneg hscale.1

theorem Describes.exact_iff (h : m.Describes plan) (hplan : plan.Encodable) (hkeeps : m.Keeps plan)
    (hparams : ∀ p ∈ plan.params, p.InRange) :
    m.Exact plan ↔ (∀ n ∈ plan.nodes.getLast?, n.inputs.length < 2 ^ 16) ∧
      ∀ p ∈ plan.params, p.offset < 2 ^ 32 ∧ p.bytes < 2 ^ 32 := by
  have hoffset : ∀ {i : Nat} {p : Param}, plan.params[i]? = some p →
      (((m.param i).offset : Int) = p.offset ↔ p.offset < 2 ^ 32) := by
    intro i p hp
    rw [(h.params i p hp).offset]
    exact emod_eq_iff_lt (by norm_num) (hparams p (List.mem_of_getElem? hp)).offset
  have hlength : ∀ {i : Nat} {p : Param}, plan.params[i]? = some p →
      (((m.param i).length : Int) = p.bytes ↔ p.bytes < 2 ^ 32) := by
    intro i p hp
    rw [(h.params i p hp).length]
    exact emod_eq_iff_lt (by norm_num) (hparams p (List.mem_of_getElem? hp)).bytes
  constructor
  · intro hexact
    refine ⟨?_, ?_⟩
    · intro n hn
      rw [Option.mem_def, List.getLast?_eq_getElem?] at hn
      rw [← hexact.inputCounts _ n hn, (h.nodes _ n hn).inputCount]
      exact Nat.mod_lt _ (by norm_num)
    · intro p hp
      obtain ⟨i, hi⟩ := List.mem_iff_getElem?.mp hp
      exact ⟨(hoffset hi).mp (hexact.offsets i p hi), (hlength hi).mp (hexact.lengths i p hi)⟩
  · rintro ⟨hlast, hsizes⟩
    refine ⟨hkeeps, ?_, ?_, ?_⟩
    · intro i n hn
      have hlt : n.inputs.length < 2 ^ 16 := by
        rcases Nat.lt_or_ge (i + 1) plan.nodes.length with hi | hi
        · exact hplan.inputs_lt hn hi
        · have hlen := (List.getElem?_eq_some_iff.mp hn).1
          refine hlast n ?_
          rw [Option.mem_def, List.getLast?_eq_getElem?, show plan.nodes.length - 1 = i by omega, hn]
      rw [(h.nodes i n hn).inputCount, Nat.mod_eq_of_lt hlt]
    · intro i p hp
      exact (hoffset hp).mpr (hsizes p (List.mem_of_getElem? hp)).1
    · intro i p hp
      exact (hlength hp).mpr (hsizes p (List.mem_of_getElem? hp)).2

end ModelSection

/-! ## The bounds of a compiled plan -/

theorem Config.scale_of_check {c : Config} (h : c.check = .ok ()) :
    0 ≤ c.scale.toInt ∧ c.scale.toInt < 2 ^ 16 := by
  have hscale := (check_eq_ok.mp h).scale
  omega

theorem IsSize.bounds {d : Int64} (h : IsSize d) : 0 ≤ d.toInt ∧ d.toInt < 2 ^ 16 :=
  ⟨by have := h.1; omega, h.2⟩

/-- The numbers of a parameter's declaration are in range. -/
def ParamSource.InRange : ParamSource → Prop
  | .fed i => IsSize i.channels ∧ IsSize i.height ∧ IsSize i.width
  | .stored c => ∀ d ∈ c.dims, IsSize d

namespace Parameters

/-- Three sizes have a product far below two to the 63, so the size of an input does not wrap. -/
theorem bytes_inputParam (ctx : Context) (id offset : Nat) {i : InputDecl}
    (hi : (ParamSource.fed i).InRange) :
    (inputParam ctx id offset i).bytes = (inputParam ctx id offset i).dims.prod * 2 := by
  obtain ⟨hc, hh, hw⟩ := hi
  have hsizes : ∀ d ∈ [i.channels, i.height, i.width], IsSize d := by simp [hc, hh, hw]
  obtain ⟨hlow, hhigh⟩ := prod_bounds hsizes
  have hwrap : (i.channels * i.height * i.width * 2).toInt =
      (i.channels.toInt * ([i.height, i.width, 2].map Int64.toInt).prod).bmod (2 ^ 64) :=
    toInt_foldl_mul [i.height, i.width, 2] i.channels
  have hprod : i.channels.toInt * ([i.height, i.width, 2].map Int64.toInt).prod =
      ([i.channels, i.height, i.width].map Int64.toInt).prod * 2 := by
    have htwo : (2 : Int64).toInt = 2 := rfl
    simp only [List.map_cons, List.map_nil, List.prod_cons, List.prod_nil, htwo]
    ring
  have hdims : (inputParam ctx id offset i).dims.prod =
      ([i.channels, i.height, i.width].map Int64.toInt).prod := by
    simp [inputParam]
  rw [hdims, inputParam, hwrap, hprod]
  norm_num at hlow hhigh
  exact Int.bmod_eq_of_le (by norm_num; omega) (by norm_num; omega)

variable {ctx : Context} {r : Regions} {src : ParamSource} {p : Param}

theorem inRange_of_recorded (h : Recorded ctx r src p) (hsrc : src.InRange)
    (hscale : 0 ≤ ctx.config.scale.toInt ∧ ctx.config.scale.toInt < 2 ^ 16) : p.InRange := by
  cases h with
  | input id offset i hplace =>
    have hbytes := bytes_inputParam ctx id offset hsrc
    obtain ⟨hc, hh, hw⟩ := hsrc
    have hdims : ∀ d ∈ (inputParam ctx id offset i).dims, 0 ≤ d ∧ d < 2 ^ 16 := by
      simp only [inputParam, List.forall_mem_cons]
      exact ⟨by norm_num, hc.bounds, hh.bounds, hw.bounds, by simp⟩
    have hslot : 0 ≤ slotTestSet ∧ slotTestSet < 2 ^ 8 := by decide
    refine ⟨Int.natCast_nonneg _, ?_, hslot, hc.bounds, hdims, hscale⟩
    rw [hbytes]
    exact mul_nonneg (List.prod_nonneg fun d hd => (hdims d hd).1) (by norm_num)
  | @const id offset c type bytes overflows hlen hencode hplace hbytes =>
    refine ⟨Int.natCast_nonneg _, Int.natCast_nonneg _, ?_, ?_, ?_, hscale⟩
    · show 0 ≤ slotFor _ _ ∧ slotFor _ _ < 2 ^ 8
      rcases slotFor_cases ctx.config.paramThreshold.toInt bytes.length with hslot | hslot
      · rw [hslot]
        decide
      · rw [hslot]
        decide
    · unfold constParam
      simp only
      split
      · rename_i k _ _ hdims
        exact (hsrc k (by simp [hdims])).bounds
      · norm_num
    · intro d hd
      obtain ⟨d, hmem, rfl⟩ := List.mem_map.mp hd
      exact (hsrc d hmem).bounds

end Parameters

namespace Compile

variable {decls : List Decl}

theorem Indexed.inRange_of_mem_params (st : Indexed decls) (hrange : ∀ d ∈ decls, d.InRange)
    {src : ParamSource} (h : src ∈ st.numbering.params) : src.InRange := by
  cases src with
  | fed i =>
    rw [st.params_eq] at h
    have hi := Numbering.fed_mem_paramSources h
    rw [st.sources_eq, Sources.mem_byKind_inputs] at hi
    exact hrange _ hi
  | stored c =>
    rw [st.params_eq, Numbering.stored_mem_paramSources st.nodup_consts] at h
    obtain ⟨c, hc, rfl⟩ := List.mem_map.mp h
    obtain ⟨dims, hdims, hsub⟩ := st.folds.reshape_eq hc
    rw [st.sources_eq, Sources.mem_byKind_consts] at hc
    rw [hdims]
    intro d hd
    exact hrange _ hc d (hsub.subset hd)

theorem Indexed.inRange_of_mem_nodes (st : Indexed decls) (hrange : ∀ d ∈ decls, d.InRange)
    {live : List Nat} {flags : List Flags} {n : Node} (h : n ∈ nodes st.numbering live flags) :
    n.InRange := by
  obtain ⟨⟨⟨s, last, flag⟩, i⟩, hmem, rfl⟩ := List.mem_map.mp h
  have hs : s ∈ st.numbering.steps := (List.of_mem_zip (List.fst_mem_of_mem_zipIdx hmem)).1
  refine ⟨?_, Int.natCast_nonneg _⟩
  obtain ⟨step, hstep, hreads⟩ := exists_left_of_forall₂ st.reads hs
  rw [st.steps_eq, List.mem_flatMap] at hstep
  obtain ⟨op, hop, hstep⟩ := hstep
  have hdecl : Decl.op op ∈ decls := by
    have hmem := List.mem_of_mem_filter hop
    rwa [st.sources_eq, Sources.mem_byKind_ops] at hmem
  show 0 ≤ s.step.type.index ∧ s.step.type.index < OpType.table.length
  rw [hreads.1]
  rcases Step.type_of_mem_ofOp hstep with htype | htype
  · rw [htype]
    exact hrange _ hdecl
  · rw [htype]
    decide

variable {samples : List Sample} {config : Config} {read : FileReader} {out : Compiled}
  {st : Finished decls samples config read out} {s : Parameters.State}

theorem Finished.size_stream_le (st : Finished decls samples config read out) (stream : Stream) :
    ((out.bundle.stream stream).size : Int) ≤ config.nvmSize.toInt := by
  obtain ⟨hreserved, htotal, -⟩ := Image.assemble_eq_ok (by simp [Stream.all]) st.himage
  have hle : (out.bundle.stream stream).size ≤ Image.total (Stream.all.map out.bundle.stream) := by
    cases stream <;> simp only [Stream.all, Image.total, List.map_cons, List.map_nil, List.sum_cons,
      List.sum_nil] <;> omega
  omega

/-- What is stored lies in the memory, so its place and its size are no larger. -/
theorem Ends.bounds_of_recorded (h : Ends st s) {src : ParamSource} {p : Param}
    (hp : Parameters.Recorded st.context s.regions src p) :
    p.offset ≤ config.nvmSize.toInt ∧ (p.input = false → p.bytes ≤ config.nvmSize.toInt) := by
  have hregion : ∀ {slot : Int}, slot = slotParameters ∨ slot = slotParameters2 →
      ((s.regions.contents slot).length : Int) ≤ config.nvmSize.toInt := by
    intro slot hslot
    rw [← h.contents_eq hslot]
    exact st.size_stream_le _
  cases hp with
  | input id offset i hplace =>
    have hend := hregion (.inl rfl)
    refine ⟨?_, fun hinput => by cases hinput⟩
    show (offset : Int) ≤ _
    omega
  | @const id offset c type bytes overflows hlen hencode hplace hbytes =>
    have hend := hregion (slotFor_cases st.context.config.paramThreshold.toInt bytes.length)
    refine ⟨?_, fun _ => ?_⟩
    · show (offset : Int) ≤ _
      omega
    · show (bytes.length : Int) ≤ _
      omega

theorem Ends.exists_recorded (h : Ends st s) (hrange : ∀ d ∈ decls, d.InRange) {p : Param}
    (hp : p ∈ out.plan.params) :
    ∃ src : ParamSource, src.InRange ∧ Parameters.Recorded st.context s.regions src p := by
  rw [h.records] at hp
  obtain ⟨src, hsrc, hp⟩ := exists_left_of_forall₂ h.placed.records hp
  exact ⟨src, st.inRange_of_mem_params hrange hsrc, hp⟩

/-- In a small memory only the size of an input can be too large for its field. -/
theorem Ends.fits_iff (h : Ends st s) (hnvm : config.nvmSize.toInt < 2 ^ 32) {src : ParamSource}
    (hsrc : src.InRange) {p : Param} (hp : Parameters.Recorded st.context s.regions src p) :
    p.offset < 2 ^ 32 ∧ p.bytes < 2 ^ 32 ↔ (p.input = true → p.dims.prod * 2 < 2 ^ 32) := by
  obtain ⟨hoffset, hconst⟩ := h.bounds_of_recorded hp
  cases hp with
  | input id offset i hplace =>
    rw [Parameters.bytes_inputParam st.context id offset hsrc]
    constructor
    · rintro ⟨-, hsize⟩ -
      exact hsize
    · intro hsize
      exact ⟨by omega, hsize rfl⟩
  | const id offset hlen hencode hplace hbytes =>
    have hsize := hconst rfl
    constructor
    · intro _ hinput
      cases hinput
    · intro _
      exact ⟨by omega, by omega⟩

end Compile

/-- The model section of a compiled model. -/
def Compiled.model (out : Compiled) : ModelSection :=
  .ofPlan out.plan (out.bundle.stream .model)

theorem Compile.Finished.describes {decls : List Decl} {samples : List Sample} {config : Config}
    {read : FileReader} {out : Compiled} (st : Finished decls samples config read out) :
    out.plan.Encodable ∧ out.model.Describes out.plan := by
  obtain ⟨hplan, hbytes⟩ := Plan.encode_eq_ok.mp (stream_of_ofPlan st.hbundle).2.2
  refine ⟨hplan, ?_⟩
  rw [Compiled.model, ← hbytes]
  exact ModelSection.describes_ofPlan hplan

/-- When the numbers of a compiled model are read back as they are in its plan. All but three kinds
always are. The others are exact if and only if they are below two to the width of their field; in a
memory of less than two to the 32 bytes that only bounds the inputs of the last node and the sizes of
the graph's inputs, which nothing checks. -/
theorem exact_iff_of_compile {text : Bytes} {samples : List Sample} {config : Config}
    {read : FileReader} {out : Compiled} (hconfig : config.check = .ok ())
    (h : (compile text samples config read).result = .ok out) :
    out.model.Keeps out.plan ∧
    (out.model.Exact out.plan ↔
      (∀ n ∈ out.plan.nodes.getLast?, n.inputs.length < 2 ^ 16) ∧
      ∀ p ∈ out.plan.params, p.offset < 2 ^ 32 ∧ p.bytes < 2 ^ 32) ∧
    (config.nvmSize.toInt < 2 ^ 32 →
      (out.model.Exact out.plan ↔
        (∀ n ∈ out.plan.nodes.getLast?, n.inputs.length < 2 ^ 16) ∧
        ∀ p ∈ out.plan.params, p.input = true → p.dims.prod * 2 < 2 ^ 32)) := by
  obtain ⟨decls, hparse, ⟨st⟩⟩ := finished_of_compile h
  obtain ⟨s, hs⟩ := Compile.exists_ends st
  obtain ⟨hplan, hdesc⟩ := st.describes
  have hrange := inRange_of_parse hparse
  have hscale := Config.scale_of_check hconfig
  have hparams : ∀ p ∈ out.plan.params, p.InRange := by
    intro p hp
    obtain ⟨src, hsrc, hp⟩ := hs.exists_recorded hrange hp
    exact Parameters.inRange_of_recorded hp hsrc hscale
  have hnodes : ∀ n ∈ out.plan.nodes, n.InRange := by
    intro n hn
    rw [st.hplan] at hn
    exact st.inRange_of_mem_nodes hrange hn
  have hkeeps := hdesc.keeps hplan hnodes hparams (by rw [st.hplan]; exact hscale)
  have hexact := hdesc.exact_iff hplan hkeeps hparams
  refine ⟨hkeeps, hexact, ?_⟩
  intro hnvm
  rw [hexact]
  refine and_congr_right' (forall₂_congr ?_)
  intro p hp
  obtain ⟨src, hsrc, hp⟩ := hs.exists_recorded hrange hp
  exact hs.fits_iff hnvm hsrc hp

theorem reshapedConv_exact :
    ∃ out, (compile reshapedConv [] reshapedConvConfig fun _ => .error []).result = .ok out ∧
      out.model.Exact out.plan := by
  have hsmall : (compile reshapedConv [] reshapedConvConfig fun _ => .error []).result.map
      (fun out => decide ((∀ n ∈ out.plan.nodes.getLast?, n.inputs.length < 2 ^ 16) ∧
        ∀ p ∈ out.plan.params, p.input = true → p.dims.prod * 2 < 2 ^ 32)) = .ok true := by
    decide +kernel
  obtain ⟨out, hout, hsmall⟩ := map_eq_ok.mp hsmall
  have hconfig : reshapedConvConfig.check = .ok () := by decide
  have hnvm : reshapedConvConfig.nvmSize.toInt < 2 ^ 32 := by decide
  obtain ⟨-, -, hexact⟩ := exact_iff_of_compile hconfig hout
  exact ⟨out, hout, (hexact hnvm).mpr (of_decide_eq_true hsmall)⟩

/-- An input of more than two to the 32 bytes. -/
def wideInput : Bytes := ascii
  "Input ToTensor=x Channels=65535 Height=65535 Width=1
Relu Name=r FromTensor=x ToTensor=y
"

def wideInputConfig : Config :=
  { scale := 8, numSlots := 2, intermediateValuesSize := 16, nvmSize := 4096, paramThreshold := 1024 }

/-- It compiles, and its size is cut. -/
theorem wideInput_not_exact :
    wideInputConfig.check = .ok () ∧
    ∃ out p, (compile wideInput [] wideInputConfig fun _ => .error []).result = .ok out ∧
      out.plan.params[0]? = some p ∧ p.bytes = 8589672450 ∧
      (out.model.param 0).length = 4294705154 ∧ ¬ out.model.Exact out.plan := by
  have hsizes : (compile wideInput [] wideInputConfig fun _ => .error []).result.map
      (fun out => (out.plan.params[0]?.map Param.bytes, (out.model.param 0).length)) =
        .ok (some 8589672450, 4294705154) := by
    decide +kernel
  obtain ⟨out, hout, hsizes⟩ := map_eq_ok.mp hsizes
  obtain ⟨hparam, hlength⟩ := Prod.mk.inj hsizes
  obtain ⟨p, hp, hbytes⟩ := Option.map_eq_some_iff.mp hparam
  refine ⟨by decide, out, p, hout, hp, hbytes, hlength, ?_⟩
  intro hexact
  have hsame := hexact.lengths 0 p hp
  rw [hbytes, hlength] at hsame
  exact absurd hsame (by decide)

end NetImage
