import NetImage.Proofs.Build.DataFlow
import NetImage.Proofs.Build.Liveness

/-!
# NetImage.Proofs.Build.Operands

The steps and nodes of a graph by their places, with no assumption on its names. An operator that is
kept has one node, behind those of the operators before it, and a convolution has its merge next to
it; what a node reads stands before it.

* `Step.main`, `Step.merge`: the steps of an operator.
* `Compile.Indexed.step_cases`: the operator that a step belongs to.
* `Compile.Indexed.namesBefore_cases`: what stands before an operator.
* `Compile.Planned.NodeAt`: the node of a step, and how long its output lives.
-/

namespace NetImage

/-- The tensor that the first node of an operator writes. -/
def OpDecl.written (op : OpDecl) : Bytes :=
  if op.body.type = .conv then Step.beforeMerge op.output else op.output

/-- How many nodes some operators become. -/
def nodeTotal (ops : List OpDecl) : Nat := (ops.map OpDecl.nodeCount).sum

namespace Step

/-- The step that does what an operator says. -/
def main (f : Folding) (op : OpDecl) : Step :=
  ⟨op.line, op.name, op.body.type, op.body.sources.map f.resolve, op.written, some op.body⟩

/-- The step that merges the channel tiles of a convolution. -/
def merge (op : OpDecl) : Step :=
  ⟨op.line, mergeName op.name, .convMerge, [beforeMerge op.output], op.output, none⟩

theorem ofOp_eq (f : Folding) (op : OpDecl) :
    ofOp f op op.output = main f op :: if op.body.type = .conv then [merge op] else [] := by
  by_cases h : op.body.type = .conv
  · rw [ofOp_conv h, if_pos h, main, OpDecl.written, if_pos h, h]
    rfl
  · rw [ofOp_plain h, if_neg h, main, OpDecl.written, if_neg h]

theorem target_of_mem_ofOp {f : Folding} {op : OpDecl} {s : Step} (h : s ∈ ofOp f op op.output) :
    s.target = op.output ∨ op.body.type = .conv ∧ s.target = beforeMerge op.output := by
  rw [ofOp_eq, List.mem_cons] at h
  by_cases hconv : op.body.type = .conv
  · rw [if_pos hconv, List.mem_singleton] at h
    rcases h with rfl | rfl
    · exact .inr ⟨hconv, if_pos hconv⟩
    · exact .inl rfl
  · rw [if_neg hconv] at h
    rcases h with rfl | h
    · exact .inl (if_neg hconv)
    · cases h

end Step

namespace Compile
namespace Indexed

variable {decls : List Decl} (st : Indexed decls)

theorem ops_eq : st.sources.ops = decls.filterMap Decl.op? := congrArg Sources.ops st.sources_eq

/-! ## Steps -/

theorem steps_split {before after : List OpDecl} {op : OpDecl}
    (hkept : st.sources.kept = before ++ op :: after) :
    ∃ front back, st.steps = front ++ Step.main st.folding op ::
        ((if op.body.type = .conv then [Step.merge op] else []) ++ back) ∧
      front = before.flatMap (fun op => Step.ofOp st.folding op op.output) ∧
      front.length = nodeTotal before := by
  refine ⟨_, after.flatMap fun op => Step.ofOp st.folding op op.output, ?_, rfl,
    Step.length_flatMap_ofOp before⟩
  rw [st.steps_eq, hkept, List.flatMap_append, List.flatMap_cons, Step.ofOp_eq, List.cons_append]

theorem getElem?_steps_main {before after : List OpDecl} {op : OpDecl}
    (hkept : st.sources.kept = before ++ op :: after) :
    st.steps[nodeTotal before]? = some (Step.main st.folding op) := by
  obtain ⟨front, back, hsteps, -, hlen⟩ := st.steps_split hkept
  simp [hsteps, ← hlen]

theorem getElem?_steps_merge {before after : List OpDecl} {op : OpDecl}
    (hkept : st.sources.kept = before ++ op :: after) (hconv : op.body.type = .conv) :
    st.steps[nodeTotal before + 1]? = some (Step.merge op) := by
  obtain ⟨front, back, hsteps, -, hlen⟩ := st.steps_split hkept
  simp [hsteps, ← hlen, hconv]

theorem step_cases {i : Nat} {step : Step} (h : st.steps[i]? = some step) :
    ∃ before op after, st.sources.kept = before ++ op :: after ∧
      ((i = nodeTotal before ∧ step = Step.main st.folding op) ∨
       (op.body.type = .conv ∧ i = nodeTotal before + 1 ∧ step = Step.merge op)) := by
  rw [st.steps_eq] at h
  obtain ⟨before, op, after, j, hkept, rfl, hstep⟩ := exists_of_getElem?_flatMap h
  refine ⟨before, op, after, hkept, ?_⟩
  rw [Step.length_flatMap_ofOp, ← nodeTotal]
  rw [Step.ofOp_eq] at hstep
  by_cases hconv : op.body.type = .conv
  · rw [if_pos hconv] at hstep
    match j with
    | 0 =>
      cases hstep
      exact .inl ⟨rfl, rfl⟩
    | 1 =>
      cases hstep
      exact .inr ⟨hconv, rfl, rfl⟩
  · rw [if_neg hconv] at hstep
    match j with
    | 0 =>
      cases hstep
      exact .inl ⟨rfl, rfl⟩

/-! ## What a step reads -/

/-- The names of the ids before that of step `i`. -/
def namesBefore (i : Nat) : List Bytes :=
  st.sources.paramNames ++ (st.steps.take i).map Step.target

theorem length_namesBefore_le (i : Nat) :
    (st.namesBefore i).length ≤ st.sources.paramNames.length + i := by
  rw [namesBefore, List.length_append, List.length_map, List.length_take]
  omega

theorem getElem?_allNames_of_before {i k : Nat} {t : Bytes} (h : (st.namesBefore i)[k]? = some t) :
    st.allNames[k]? = some t := by
  have hsplit : st.allNames = st.namesBefore i ++ (st.steps.drop i).map Step.target := by
    rw [allNames, namesBefore, List.append_assoc, ← List.map_append, List.take_append_drop]
  rw [hsplit, List.getElem?_append_left (List.getElem?_eq_some_iff.mp h).1, h]

theorem getElem?_allNames_target {i : Nat} {step : Step} (h : st.steps[i]? = some step) :
    st.allNames[st.sources.paramNames.length + i]? = some step.target := by
  rw [allNames, List.getElem?_append_right (by omega), Nat.add_sub_cancel_left, List.getElem?_map, h,
    Option.map_some]

theorem reads_at {i : Nat} {step : Step} (h : st.steps[i]? = some step) :
    ∃ s, st.numbering.steps[i]? = some s ∧ Numbering.Reads (st.namesBefore i) step s := by
  rw [namesBefore, ← st.names_eq]
  exact st.inOrder.reads_at h

theorem reads_of_numbered {i : Nat} {s : NumberedStep} (h : st.numbering.steps[i]? = some s) :
    ∃ step, st.steps[i]? = some step ∧ Numbering.Reads (st.namesBefore i) step s := by
  have hi := (List.getElem?_eq_some_iff.mp h).1
  rw [← st.inOrder.length_eq] at hi
  have hstep := List.getElem?_eq_getElem hi
  obtain ⟨s', hs', hreads⟩ := st.reads_at hstep
  rw [h] at hs'
  cases hs'
  exact ⟨_, hstep, hreads⟩

theorem input_lt {i : Nat} {s : NumberedStep} (h : st.numbering.steps[i]? = some s) :
    ∀ id ∈ s.inputs, id < st.sources.paramNames.length + i := by
  intro id hid
  obtain ⟨step, -, hreads⟩ := st.reads_of_numbered h
  exact Nat.lt_of_lt_of_le (hreads.lt_length hid) (st.length_namesBefore_le i)

/-- A name before a kept operator is that of a parameter, or is written by an operator before it. -/
theorem namesBefore_cases {before after : List OpDecl} {op : OpDecl}
    (hkept : st.sources.kept = before ++ op :: after) {t : Bytes}
    (h : t ∈ st.namesBefore (nodeTotal before)) :
    t ∈ st.sources.paramNames ∨ ∃ op' ∈ before,
      t = op'.output ∨ op'.body.type = .conv ∧ t = Step.beforeMerge op'.output := by
  obtain ⟨front, back, hsteps, hfront, hlen⟩ := st.steps_split hkept
  rw [namesBefore, hsteps, ← hlen, List.take_left, List.mem_append, List.mem_map] at h
  rcases h with h | ⟨s, hs, rfl⟩
  · exact .inl h
  · rw [hfront, List.mem_flatMap] at hs
    obtain ⟨op', hop', hs⟩ := hs
    exact .inr ⟨op', hop', Step.target_of_mem_ofOp hs⟩

/-- A constant and the output of a step have different names. -/
theorem target_not_mem_paramNames {i : Nat} {step : Step} (h : st.steps[i]? = some step) :
    step.target ∉ st.sources.paramNames := by
  intro hmem
  obtain ⟨k, hk⟩ := List.mem_iff_getElem?.mp hmem
  have hlt := (List.getElem?_eq_some_iff.mp hk).1
  have heq := st.eq_of_getElem?_allNames (st.getElem?_allNames_of_param hk)
    (st.getElem?_allNames_target h)
  omega

theorem target_inj {i j : Nat} {s s' : Step} (hs : st.steps[i]? = some s)
    (hs' : st.steps[j]? = some s') (h : s.target = s'.target) : i = j := by
  have heq := st.eq_of_getElem?_allNames (st.getElem?_allNames_target hs)
    (h ▸ st.getElem?_allNames_target hs')
  omega

end Indexed

/-! ## Nodes -/

theorem getElem?_nodes {numbering : Numbering} {live : List Nat} {flags : List Flags} {i : Nat}
    {n : Node} : (nodes numbering live flags)[i]? = some n ↔
      ∃ s last flag, numbering.steps[i]? = some s ∧ live[i]? = some last ∧ flags[i]? = some flag ∧
        n = { id := numbering.params.length + i, name := s.step.name,
              inputs := s.inputs.map Int.ofNat, op := s.step.type, flags := flag,
              maxOutputId := last } := by
  unfold nodes
  rw [List.getElem?_map, Option.map_eq_some_iff]
  simp only [List.getElem?_zipIdx, Option.map_eq_some_iff, List.getElem?_zip_eq_some]
  constructor
  · rintro ⟨_, ⟨⟨s, last, flag⟩, ⟨hs, hlast, hflag⟩, rfl⟩, rfl⟩
    exact ⟨s, last, flag, hs, hlast, hflag, by simp⟩
  · rintro ⟨s, last, flag, hs, hlast, hflag, rfl⟩
    exact ⟨_, ⟨⟨s, last, flag⟩, ⟨hs, hlast, hflag⟩, rfl⟩, by simp⟩

namespace Planned

variable {decls : List Decl} {samples : List Sample} {config : Config} {read : FileReader}
  {p : Plan} (st : Planned decls samples config read p)

theorem length_params_eq : st.numbering.params.length = st.sources.paramNames.length := by
  rw [st.length_params, st.names_eq]

theorem nodes_eq : p.nodes =
    nodes st.numbering (lastNeeded st.numbering.params.length st.numbering.steps) st.flags :=
  congrArg Plan.nodes st.hplan

/-- The id of step `i`. -/
def idAt (i : Nat) : Nat := st.sources.paramNames.length + i

/-- The last step that needs the output of step `i`. -/
def life (i : Nat) : Nat :=
  max (Liveness.lastConcatReader st.sources.paramNames.length st.numbering.steps (st.idAt i))
    (Liveness.lastReader st.sources.paramNames.length st.numbering.steps (st.idAt i))

/-- The node of step `i`. -/
structure NodeAt (i : Nat) (step : Step) (s : NumberedStep) (n : Node) : Prop where
  numbered : st.numbering.steps[i]? = some s
  reads : Numbering.Reads (st.namesBefore i) step s
  id : n.id = st.idAt i
  name : n.name = step.name
  type : n.op = step.type
  inputs : n.inputs = s.inputs.map Int.ofNat
  maxOutputId : n.maxOutputId = st.life i

theorem exists_nodeAt {i : Nat} {step : Step} (h : st.steps[i]? = some step) :
    ∃ n s, p.nodes[i]? = some n ∧ st.NodeAt i step s n := by
  obtain ⟨s, hs, hreads⟩ := st.reads_at h
  have hi := (List.getElem?_eq_some_iff.mp hs).1
  have hlive := getElem?_lastNeeded (fun j s hs => st.input_lt hs) hi
  have hflag := List.getElem?_eq_getElem (st.length_flags ▸ hi)
  rw [← st.length_params_eq] at hlive
  have hn := getElem?_nodes.mpr ⟨s, _, _, hs, hlive, hflag, rfl⟩
  rw [← st.nodes_eq] at hn
  refine ⟨_, s, hn, hs, hreads, ?_, ?_, ?_, rfl, ?_⟩
  · simp [idAt, st.length_params_eq]
  · rw [hreads.1]
  · rw [hreads.1]
  · rw [life, idAt, st.length_params_eq]

theorem nodeAt_of_getElem? {i : Nat} {n : Node} (h : p.nodes[i]? = some n) :
    ∃ step s, st.steps[i]? = some step ∧ st.NodeAt i step s n := by
  have hnodes := h
  rw [st.nodes_eq] at hnodes
  obtain ⟨s, _, _, hs, -⟩ := getElem?_nodes.mp hnodes
  obtain ⟨step, hstep, -⟩ := st.reads_of_numbered hs
  obtain ⟨n', s', hn', hat⟩ := st.exists_nodeAt hstep
  rw [h] at hn'
  cases hn'
  exact ⟨step, s', hstep, hat⟩

end Planned
end Compile
end NetImage
