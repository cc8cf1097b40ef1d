import NetImage.Proofs.Build.Operands

/-!
# NetImage.Proofs.Build.ConvSplit

A convolution and its merge. The merge always stands right behind the convolution and reads nothing
else. That nothing else reads the convolution depends on the graph: the tensor between the two has a
name that an operator may use too, and then its node reads the convolution and lets it live longer.

* `Compile.Planned.reads_iff`: a node reads the ids of the names that its step reads.
* `Compile.Planned.readsItself_iff`: the operators that read the output of a step.
* `Compile.Planned.readOnlyByNext_iff`: who reads a convolution.
* `convSplit_of_compile`: the convolutions of a compiled model.
-/

namespace NetImage

/-- No node reads that at place `i` but the next. -/
def Plan.ReadOnlyByNext (p : Plan) (i : Nat) (n : Node) : Prop :=
  ∀ (j : Nat) (m : Node), p.nodes[j]? = some m → n.id ∈ m.inputs → j = i + 1

/-- Does some operator name `t`, and read no constant under this name? -/
def Sources.ReadsItself (g : Sources) (t : Bytes) : Prop :=
  g.redirect t = t ∧ ∃ op ∈ g.ops, t ∈ op.body.sources

instance (g : Sources) (t : Bytes) : Decidable (g.ReadsItself t) :=
  inferInstanceAs (Decidable (_ ∧ _))

namespace Compile
namespace Planned

variable {decls : List Decl} {samples : List Sample} {config : Config} {read : FileReader}
  {p : Plan} (st : Planned decls samples config read p)

variable {st} in
theorem NodeAt.mem_inputs {j id : Nat} {step : Step} {s : NumberedStep} {m : Node}
    (hm : st.NodeAt j step s m) : (id : Int) ∈ m.inputs ↔ id ∈ s.inputs := by
  rw [hm.inputs, List.mem_map]
  constructor
  · rintro ⟨k, hk, hid⟩
    rwa [← Int.ofNat.inj hid]
  · intro hid
    exact ⟨id, hid, rfl⟩

theorem reads_iff {i j : Nat} {source step : Step} {s : NumberedStep} {m : Node}
    (hsource : st.steps[i]? = some source) (hm : st.NodeAt j step s m) :
    (st.idAt i : Int) ∈ m.inputs ↔ source.target ∈ step.sources := by
  have htarget := st.getElem?_allNames_target hsource
  rw [hm.mem_inputs]
  constructor
  · intro hid
    obtain ⟨t, ht, hname⟩ := exists_left_of_forall₂ hm.reads.2 hid
    have hall := st.getElem?_allNames_of_before hname
    rw [idAt, htarget] at hall
    rwa [Option.some.inj hall]
  · intro hmem
    obtain ⟨k, hk, hname⟩ := exists_right_of_forall₂ hm.reads.2 hmem
    have hid : k = st.idAt i :=
      st.eq_of_getElem?_allNames (st.getElem?_allNames_of_before hname) htarget
    rwa [← hid]

/-- The operators that read the output of a step are those that name it. -/
theorem readsItself_iff {i : Nat} {source : Step} (hsource : st.steps[i]? = some source) :
    st.sources.ReadsItself source.target ↔
      ∃ op ∈ st.sources.kept, source.target ∈ (Step.main st.folding op).sources := by
  -- a step writes no constant, so neither an alias nor a folded squeeze is about its output
  have hconst : source.target ∉ st.sources.consts.map ConstDecl.tensor := fun h =>
    st.target_not_mem_paramNames hsource (st.mem_paramNames_of_const h)
  constructor
  · rintro ⟨hself, op, hop, ht⟩
    refine ⟨op, List.mem_filter.mpr ⟨hop, ?_⟩, ?_⟩
    · rw [Bool.not_eq_true', ← Bool.not_eq_true, Sources.folds_iff]
      rintro ⟨c, t, axes, hbody, hc⟩
      rw [hbody, OpBody.sources, List.mem_singleton] at ht
      exact hconst (ht ▸ hc)
    · rw [← hself, ← st.folds.resolve_eq]
      exact List.mem_map_of_mem ht
  · rintro ⟨op, hop, ht⟩
    obtain ⟨t, ht, hname⟩ := List.mem_map.mp ht
    rw [st.folds.resolve_eq] at hname
    rcases st.sources.redirect_cases t with hself | ⟨hc, -⟩
    · rw [hself] at hname
      subst hname
      exact ⟨hself, op, List.mem_of_mem_filter hop, ht⟩
    · exact absurd (hname ▸ hc) hconst

/-! ## Lives -/

theorem reader_le_life {i j : Nat} {m : Node} (hm : p.nodes[j]? = some m)
    (hread : (st.idAt i : Int) ∈ m.inputs) : i < j ∧ st.idAt j ≤ st.life i := by
  obtain ⟨step, s, -, hat⟩ := st.nodeAt_of_getElem? hm
  rw [hat.mem_inputs] at hread
  have hbehind := st.input_lt hat.numbered _ hread
  have hlast := Liveness.overReaders_le_iff.mp (le_refl (Liveness.lastReader
    st.sources.paramNames.length st.numbering.steps (st.idAt i))) j s hat.numbered hread
  exact ⟨Nat.lt_of_add_lt_add_left hbehind, hlast.trans (le_max_right _ _)⟩

theorem life_le {i b : Nat} (h : ∀ (j : Nat) (m : Node), p.nodes[j]? = some m →
    (st.idAt i : Int) ∈ m.inputs → m.op ≠ .concat ∧ st.idAt j ≤ b) : st.life i ≤ b := by
  have hreader : ∀ (j : Nat) (s : NumberedStep), st.numbering.steps[j]? = some s →
      st.idAt i ∈ s.inputs → s.step.type ≠ .concat ∧ st.idAt j ≤ b := by
    intro j s hs hread
    obtain ⟨step, hstep, -⟩ := st.reads_of_numbered hs
    obtain ⟨m, s', hm, hat⟩ := st.exists_nodeAt hstep
    cases hs.symm.trans hat.numbered
    have hnode := h j m hm (hat.mem_inputs.mpr hread)
    rwa [hat.type, ← hat.reads.1] at hnode
  refine max_le ?_ ?_
  · refine Liveness.overReaders_le_iff.mpr ?_
    intro j s hs hread
    rw [if_neg (hreader j s hs hread).1]
    exact Nat.zero_le b
  · refine Liveness.overReaders_le_iff.mpr ?_
    intro j s hs hread
    exact (hreader j s hs hread).2

/-! ## Convolutions -/

section
variable {before after : List OpDecl} {op : OpDecl}
  (hkept : st.sources.kept = before ++ op :: after) (hconv : op.body.type = .conv)
  {s : NumberedStep} {n : Node}
  (hn : st.NodeAt (nodeTotal before) (Step.main st.folding op) s n)
include hkept hconv hn

theorem exists_merge :
    ∃ m, p.nodes[nodeTotal before + 1]? = some m ∧ m.op = .convMerge ∧ m.inputs = [n.id] := by
  obtain ⟨m, s', hm, hat⟩ := st.exists_nodeAt (st.getElem?_steps_merge hkept hconv)
  refine ⟨m, hm, hat.type, ?_⟩
  obtain ⟨k, rest, hk, hrest, hinputs⟩ := List.forall₂_cons_left_iff.mp hat.reads.2
  rw [List.forall₂_nil_left_iff] at hrest
  subst hrest
  have hwritten := st.getElem?_allNames_target (st.getElem?_steps_main hkept)
  rw [Step.main, OpDecl.written, if_pos hconv] at hwritten
  have hid := st.eq_of_getElem?_allNames (st.getElem?_allNames_of_before hk) hwritten
  rw [hat.inputs, hinputs, hn.id, hid]
  rfl

theorem readOnlyByNext_iff : p.ReadOnlyByNext (nodeTotal before) n ↔
    ¬ st.sources.ReadsItself (Step.beforeMerge op.output) := by
  have hmain := st.getElem?_steps_main hkept
  have hmerge := st.getElem?_steps_merge hkept hconv
  have hwritten : (Step.main st.folding op).target = Step.beforeMerge op.output := if_pos hconv
  rw [← hwritten, st.readsItself_iff hmain]
  constructor
  · rintro honly ⟨op', hop', ht⟩
    obtain ⟨before', after', hkept'⟩ := List.append_of_mem hop'
    have hmain' := st.getElem?_steps_main hkept'
    obtain ⟨m, s', hm, hat⟩ := st.exists_nodeAt hmain'
    have hread : n.id ∈ m.inputs := hn.id ▸ (st.reads_iff hmain hat).mpr ht
    -- the step behind the convolution is a merge, and no operator's own
    rw [honly _ m hm hread, hmerge] at hmain'
    cases congrArg (Option.map Step.body) hmain'
  · intro hnone j m hm hread
    obtain ⟨step, s', hstep, hat⟩ := st.nodeAt_of_getElem? hm
    rw [hn.id, st.reads_iff hmain hat] at hread
    obtain ⟨before', op', after', hkept', ⟨-, rfl⟩ | ⟨-, rfl, rfl⟩⟩ := st.step_cases hstep
    · exact absurd ⟨op', hkept' ▸ List.mem_append_right _ List.mem_cons_self, hread⟩ hnone
    · rw [hwritten, Step.merge, List.mem_singleton] at hread
      have hsame : op'.output = op.output := (List.append_cancel_right hread).symm
      exact st.target_inj hstep hmerge hsame

/-- A convolution lives until its merge exactly if only its merge reads it. -/
theorem maxOutputId_iff : n.maxOutputId = n.id + 1 ↔ p.ReadOnlyByNext (nodeTotal before) n := by
  obtain ⟨m, hm, htype, hinputs⟩ := st.exists_merge hkept hconv hn
  rw [hn.id] at hinputs
  have hmerge := st.reader_le_life hm (hinputs ▸ List.mem_singleton_self _)
  have hnext : st.idAt (nodeTotal before + 1) = st.idAt (nodeTotal before) + 1 := rfl
  rw [Plan.ReadOnlyByNext, hn.maxOutputId, hn.id]
  constructor
  · intro hlife j m' hm' hread
    have hlast := st.reader_le_life hm' hread
    have hidAt : st.idAt j = st.sources.paramNames.length + j := rfl
    rw [idAt] at hlife
    omega
  · intro honly
    have hlast : st.life (nodeTotal before) ≤ st.idAt (nodeTotal before + 1) := by
      refine st.life_le ?_
      intro j m' hm' hread
      cases honly j m' hm' hread
      rw [hm] at hm'
      cases hm'
      rw [htype]
      exact ⟨by decide, le_refl _⟩
    omega

end
end Planned
end Compile

/-- The convolutions of a compiled model. The node behind a convolution is its merge and reads
nothing else. The convolution is needed until there exactly if no other node reads it, and this holds
exactly if no operator of the graph names the tensor between the two. -/
theorem convSplit_of_compile {text : Bytes} {samples : List Sample} {config : Config}
    {read : FileReader} {out : Compiled}
    (h : (compile text samples config read).result = .ok out) :
    ∃ decls, parse text = .ok decls ∧
      ∀ (i : Nat) (n : Node), out.plan.nodes[i]? = some n → n.op = .conv →
        (∃ m, out.plan.nodes[i + 1]? = some m ∧ m.op = .convMerge ∧ m.inputs = [n.id]) ∧
        (n.maxOutputId = n.id + 1 ↔ out.plan.ReadOnlyByNext i n) ∧
        ∃ before op after, (Sources.byKind decls).kept = before ++ op :: after ∧
          nodeTotal before = i ∧ op.name = n.name ∧ op.body.type = .conv ∧
          (out.plan.ReadOnlyByNext i n ↔
            ¬ (Sources.byKind decls).ReadsItself (Step.beforeMerge op.output)) := by
  obtain ⟨decls, hparse, ⟨st⟩⟩ := finished_of_compile h
  refine ⟨decls, hparse, ?_⟩
  intro i n hn hop
  obtain ⟨step, s, hstep, hat⟩ := st.nodeAt_of_getElem? hn
  have htype : step.type = .conv := hat.type.symm.trans hop
  obtain ⟨before, op, after, hkept, ⟨rfl, rfl⟩ | ⟨-, -, rfl⟩⟩ := st.step_cases hstep
  · refine ⟨st.exists_merge hkept htype hat, st.maxOutputId_iff hkept htype hat, before, op, after, ?_,
      rfl, hat.name.symm, htype, ?_⟩
    · rw [← st.sources_eq, hkept]
    · rw [← st.sources_eq]
      exact st.readOnlyByNext_iff hkept htype hat
  · cases htype

/-- A convolution with output `y`, and an operator that reads a given tensor behind it. -/
def convThenRelu (source : Bytes) : Bytes :=
  ascii "Input ToTensor=x Channels=1 Height=1 Width=1
Const ToTensor=w Type=Int64 Dims=1 Data=3
Conv Name=c FromTensor=x WeightsTensor=w BiasesTensor=- ToTensor=y Strides=1,1 AutoPad=VALID
Relu Name=r FromTensor=" ++ source ++ ascii " ToTensor=z
"

theorem convThenRelu_split :
    ∃ out n m, (compile (convThenRelu (ascii "y")) [] { scale := 8, nvmSize := 2000 }
        fun _ => .error []).result = .ok out ∧
      out.plan.nodes[0]? = some n ∧ n.op = .conv ∧ out.plan.nodes[1]? = some m ∧
      m.op = .convMerge ∧ m.inputs = [n.id] ∧ out.plan.ReadOnlyByNext 0 n ∧
      n.maxOutputId = n.id + 1 := by
  have hfirst : (compile (convThenRelu (ascii "y")) [] { scale := 8, nvmSize := 2000 }
      fun _ => .error []).result.map (fun out => out.plan.nodes[0]?.map Node.op) =
      .ok (some .conv) := by
    decide +kernel
  have hnames : (parse (convThenRelu (ascii "y"))).map (fun decls =>
      decide (∀ op ∈ (Sources.byKind decls).kept, op.body.type = .conv →
        ¬ (Sources.byKind decls).ReadsItself (Step.beforeMerge op.output))) = .ok true := by
    decide +kernel
  obtain ⟨out, hout, hfirst⟩ := map_eq_ok.mp hfirst
  obtain ⟨n, hn, hop⟩ := Option.map_eq_some_iff.mp hfirst
  obtain ⟨decls, hparse, hsplit⟩ := convSplit_of_compile hout
  obtain ⟨decls', hparse', hnames⟩ := map_eq_ok.mp hnames
  cases hparse.symm.trans hparse'
  obtain ⟨⟨m, hm, hmerge, hinputs⟩, hlife, before, op, after, hkept, -, -, hconv, hreaders⟩ :=
    hsplit 0 n hn hop
  have hmem : op ∈ (Sources.byKind decls).kept :=
    hkept ▸ List.mem_append_right before List.mem_cons_self
  have honly := hreaders.mpr (of_decide_eq_true hnames op hmem hconv)
  exact ⟨out, n, m, hout, hn, hop, hm, hmerge, hinputs, honly, hlife.mpr honly⟩

/-- An operator that names the tensor between a convolution and its merge reads the convolution. -/
theorem convThenRelu_not_split :
    ∃ out n r, (compile (convThenRelu (ascii "y_before_merge")) [] { scale := 8, nvmSize := 2000 }
        fun _ => .error []).result = .ok out ∧
      out.plan.nodes[0]? = some n ∧ n.op = .conv ∧ out.plan.nodes[2]? = some r ∧ r.op = .relu ∧
      n.id ∈ r.inputs ∧ ¬ out.plan.ReadOnlyByNext 0 n ∧ n.maxOutputId = n.id + 2 := by
  have hnodes : (compile (convThenRelu (ascii "y_before_merge")) []
      { scale := 8, nvmSize := 2000 } fun _ => .error []).result.map
        (fun out => (out.plan.nodes[0]?.map fun n => (n.op, n.id, n.maxOutputId),
          out.plan.nodes[2]?.map fun n => (n.op, n.inputs))) =
      .ok (some (.conv, 2, 4), some (.relu, [2])) := by
    decide +kernel
  obtain ⟨out, hout, hnodes⟩ := map_eq_ok.mp hnodes
  obtain ⟨hconv, hrelu⟩ := Prod.mk.inj hnodes
  obtain ⟨n, hn, hconv⟩ := Option.map_eq_some_iff.mp hconv
  obtain ⟨r, hr, hrelu⟩ := Option.map_eq_some_iff.mp hrelu
  simp only [Prod.mk.injEq] at hconv hrelu
  have hread : n.id ∈ r.inputs := by
    rw [hconv.2.1, hrelu.2]
    exact List.mem_singleton_self _
  refine ⟨out, n, r, hout, hn, hconv.1, hr, hrelu.1, hread, ?_, ?_⟩
  · intro honly
    cases honly 2 r hr hread
  · rw [hconv.2.1, hconv.2.2]
    rfl

end NetImage
