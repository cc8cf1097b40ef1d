import NetImage.Proofs.Build.Compile

/-!
# NetImage.Proofs.Build.DataFlow

The nodes of a plan compute what the declarations say. Squeezes of constants are left out, a
convolution becomes two nodes, and all names become ids; still every node reads what the declaration
that produces the named tensor stands for.

* `UniqueProducers`: no tensor is produced twice.
* `Sources.ProducedBy`: the id that stands for a tensor.
* `Mirrors`: nodes that are those of some operators.
* `Compile.producedBy_of_getElem?`: a place in the list of all names is the id of a producer.
* `Compile.mirrors_of_reads`: numbered steps mirror their operators.
* `mirrors_of_numbering`: the nodes of a graph.
-/

namespace NetImage

/-- The tensors that a declaration produces. Of the outputs of a dropout only the first counts. -/
def Decl.products : Decl → List Bytes
  | .input d => [d.tensor]
  | .const d => [d.tensor]
  | .op d => Step.outputs d.body

theorem Decl.mem_products_of_squeeze {op : OpDecl} {c t : Bytes} {axes : List Int64}
    (h : op.body = .squeeze c t axes) : t ∈ (Decl.op op).products := by
  rw [products, h]
  exact List.mem_singleton_self t

/-- A constant may have the name of an input. -/
def Decl.mayShare : Decl → Decl → Bool
  | .input _, .const _ => true
  | .const _, .input _ => true
  | _, _ => false

/-- No tensor is produced by two declarations, except that a constant may supply an input. -/
def UniqueProducers (decls : List Decl) : Prop :=
  decls.Pairwise fun d e => ∀ t ∈ d.products, t ∈ e.products → d.mayShare e = true

instance (decls : List Decl) : Decidable (UniqueProducers decls) :=
  inferInstanceAs (Decidable (decls.Pairwise _))

theorem UniqueProducers.eq_or_mayShare {decls : List Decl} (h : UniqueProducers decls) {d e : Decl}
    (hd : d ∈ decls) (he : e ∈ decls) {t : Bytes} (htd : t ∈ d.products) (hte : t ∈ e.products) :
    d = e ∨ d.mayShare e = true := by
  have hsymm : Std.Symm fun d e : Decl =>
      ∀ t ∈ d.products, t ∈ e.products → d.mayShare e = true := by
    refine ⟨?_⟩
    intro d e hde t hte htd
    have := hde t htd hte
    cases d <;> cases e <;> exact this
  by_cases heq : d = e
  · exact .inl heq
  · exact .inr (List.Pairwise.forall h hd he heq t htd hte)

/-- How many nodes an operator becomes. -/
def OpDecl.nodeCount (op : OpDecl) : Nat := if op.body.type = .conv then 2 else 1

namespace Sources

/-- The names of the inputs, then those of the constants that supply no input. -/
def paramNames (g : Sources) : List Bytes := Numbering.paramNames g.inputs g.consts

/-- The id that stands for a tensor: that of the input or constant with this name, that of the constant
that a folded squeeze reads, or that of the last node of the operator that writes it. -/
inductive ProducedBy (g : Sources) : Bytes → Nat → Prop
  | param {t : Bytes} {id : Nat} (hid : g.paramNames[id]? = some t) : ProducedBy g t id
  | squeeze {op : OpDecl} {c t : Bytes} {axes : List Int64} {id : Nat} (hop : op ∈ g.ops)
      (hbody : op.body = .squeeze c t axes) (hconst : c ∈ g.consts.map ConstDecl.tensor)
      (hid : g.paramNames[id]? = some c) : ProducedBy g t id
  | node {before after : List OpDecl} {op : OpDecl} {t : Bytes}
      (hkept : g.kept = before ++ op :: after) (ht : t ∈ Step.outputs op.body) :
      ProducedBy g t
        (g.paramNames.length + (before.map OpDecl.nodeCount).sum + (op.nodeCount - 1))

end Sources

/-- The node of an operator. Its inputs are the ids of the tensors it names, in order. -/
structure NodeOf (g : Sources) (place : Nat) (op : OpDecl) (n : Node) : Prop where
  id : n.id = place
  name : n.name = op.name
  type : n.op = op.body.type
  inputs : List.Forall₂ (fun t i => ∃ k : Nat, i = (k : Int) ∧ g.ProducedBy t k) op.body.sources
    n.inputs

/-- The node that merges the channel tiles of the convolution at the given place. -/
structure MergeOf (place : Nat) (op : OpDecl) (m : Node) : Prop where
  id : m.id = place + 1
  name : m.name = op.name ++ ascii ":merge"
  type : m.op = .convMerge
  inputs : m.inputs = [(place : Int)]

/-- The nodes of some operators, the first of them with the given id. -/
inductive Mirrors (g : Sources) : Nat → List OpDecl → List Node → Prop
  | nil (id : Nat) : Mirrors g id [] []
  | plain {id : Nat} {op : OpDecl} {ops : List OpDecl} {n : Node} {ns : List Node}
      (htype : op.body.type ≠ .conv) (hn : NodeOf g id op n) (hns : Mirrors g (id + 1) ops ns) :
      Mirrors g id (op :: ops) (n :: ns)
  | conv {id : Nat} {op : OpDecl} {ops : List OpDecl} {n m : Node} {ns : List Node}
      (htype : op.body.type = .conv) (hn : NodeOf g id op n) (hm : MergeOf id op m)
      (hns : Mirrors g (id + 2) ops ns) : Mirrors g id (op :: ops) (n :: m :: ns)

/-! ## Places in the list of all names -/

namespace Step

variable {f : Folding}

theorem length_ofOp (op : OpDecl) (t : Bytes) : (ofOp f op t).length = op.nodeCount := by
  by_cases h : op.body.type = .conv
  · rw [ofOp_conv h, OpDecl.nodeCount, if_pos h]
    rfl
  · rw [ofOp_plain h, OpDecl.nodeCount, if_neg h]
    rfl

theorem length_flatMap_ofOp (ops : List OpDecl) :
    (ops.flatMap fun op => ofOp f op op.output).length = (ops.map OpDecl.nodeCount).sum := by
  rw [List.length_flatMap]
  congr 1
  exact List.map_congr_left fun op _ => length_ofOp op op.output

/-- The output of an operator is that of its last step; a convolution writes to a tensor between. -/
theorem target_ofOp {op : OpDecl} {j : Nat} {s : Step}
    (h : (ofOp f op op.output)[j]? = some s) :
    (s.target = op.output ∧ j = op.nodeCount - 1) ∨ s.target = beforeMerge op.output := by
  by_cases htype : op.body.type = .conv
  · rw [ofOp_conv htype] at h
    rw [OpDecl.nodeCount, if_pos htype]
    match j with
    | 0 =>
      cases h
      exact .inr rfl
    | 1 =>
      cases h
      exact .inl ⟨rfl, rfl⟩
  · rw [ofOp_plain htype] at h
    rw [OpDecl.nodeCount, if_neg htype]
    match j with
    | 0 =>
      cases h
      exact .inl ⟨rfl, rfl⟩

theorem getElem?_target_ofOp (op : OpDecl) (t : Bytes) :
    ((ofOp f op t).map target)[op.nodeCount - 1]? = some t := by
  by_cases h : op.body.type = .conv
  · rw [ofOp_conv h, OpDecl.nodeCount, if_pos h]
    rfl
  · rw [ofOp_plain h, OpDecl.nodeCount, if_neg h]
    rfl

end Step

/-- An element of joined lists is one of a list, behind the lists before that. -/
theorem exists_of_getElem?_flatMap {α β : Type} {F : α → List β} {xs : List α} {k : Nat} {y : β}
    (h : (xs.flatMap F)[k]? = some y) :
    ∃ before x after j, xs = before ++ x :: after ∧ k = (before.flatMap F).length + j ∧
      (F x)[j]? = some y := by
  induction xs generalizing k with
  | nil => simp at h
  | cons x xs ih =>
    rw [List.flatMap_cons] at h
    rcases Nat.lt_or_ge k (F x).length with hk | hk
    · rw [List.getElem?_append_left hk] at h
      exact ⟨[], x, xs, k, rfl, by simp, h⟩
    · rw [List.getElem?_append_right hk] at h
      obtain ⟨before, x', after, j, rfl, hj, hy⟩ := ih h
      refine ⟨x :: before, x', after, j, rfl, ?_, hy⟩
      rw [List.flatMap_cons, List.length_append]
      omega

namespace Compile
namespace Indexed

variable {decls : List Decl} (st : Indexed decls)

theorem names_eq : st.names = st.sources.paramNames := by
  rw [names, Sources.paramNames, Numbering.paramNames, Numbering.paramNames, st.map_tensor_consts]

/-- The names of all ids: those of the parameters, then the outputs of the steps. -/
def allNames : List Bytes := st.sources.paramNames ++ st.steps.map Step.target

theorem nodup_allNames : st.allNames.Nodup := by
  rw [allNames, ← st.names_eq]
  exact st.nodup_names

theorem eq_of_getElem?_allNames {t : Bytes} {i j : Nat} (hi : st.allNames[i]? = some t)
    (hj : st.allNames[j]? = some t) : i = j := by
  have hlt := (List.getElem?_eq_some_iff.mp hi).1
  exact (List.getElem?_inj hlt st.nodup_allNames).mp (hi.trans hj.symm)

theorem getElem?_allNames_of_param {t : Bytes} {id : Nat}
    (h : st.sources.paramNames[id]? = some t) : st.allNames[id]? = some t := by
  rw [allNames, List.getElem?_append_left (List.getElem?_eq_some_iff.mp h).1, h]

theorem mem_paramNames_of_const {c : Bytes} (h : c ∈ st.sources.consts.map ConstDecl.tensor) :
    c ∈ st.sources.paramNames := by
  rw [Sources.paramNames, Numbering.paramNames, List.mem_append, List.mem_filter]
  by_cases hinput : c ∈ st.sources.inputs.map InputDecl.tensor
  · exact .inl hinput
  · exact .inr ⟨h, by simpa using hinput⟩

/-- The place of a name that stands among the outputs of the steps. -/
theorem producedBy_of_target {t : Bytes} {k : Nat} (hsuffix : ¬ ascii "_before_merge" <:+ t)
    (h : (st.steps.map Step.target)[k]? = some t) :
    st.sources.ProducedBy t (st.sources.paramNames.length + k) := by
  rw [List.getElem?_map, Option.map_eq_some_iff] at h
  obtain ⟨s, hs, rfl⟩ := h
  rw [st.steps_eq] at hs
  obtain ⟨before, op, after, j, hkept, rfl, hstep⟩ := exists_of_getElem?_flatMap hs
  have hop : op ∈ st.sources.ops := by
    refine List.mem_of_mem_filter (p := fun op => !st.sources.folds op) ?_
    rw [← Sources.kept, hkept]
    simp
  rcases Step.target_ofOp hstep with ⟨htarget, rfl⟩ | htarget
  · rw [Step.length_flatMap_ofOp, ← Nat.add_assoc]
    refine .node hkept ?_
    rw [st.outputs_eq op hop, htarget]
    exact List.mem_singleton_self _
  · rw [htarget] at hsuffix
    exact absurd (List.suffix_append _ _) hsuffix

/-- An id at which the tensor that is read under a name stands is the id of the name's producer. -/
theorem producedBy_of_getElem? {t : Bytes} {k : Nat} (hsuffix : ¬ ascii "_before_merge" <:+ t)
    (h : st.allNames[k]? = some (st.sources.redirect t)) : st.sources.ProducedBy t k := by
  unfold Sources.redirect at h
  cases halias : st.sources.ops.reverse.findSome? (st.sources.aliasBy t) with
  | some c =>
    rw [halias, Option.getD_some] at h
    obtain ⟨op, hop, hc⟩ := List.exists_of_findSome?_eq_some halias
    obtain ⟨axes, hbody, hconst⟩ := Sources.aliasBy_eq_some.mp hc
    obtain ⟨id, hid⟩ := List.mem_iff_getElem?.mp (st.mem_paramNames_of_const hconst)
    have hk := st.eq_of_getElem?_allNames h (st.getElem?_allNames_of_param hid)
    exact .squeeze (List.mem_reverse.mp hop) hbody hconst (hk ▸ hid)
  | none =>
    rw [halias, Option.getD_none, allNames] at h
    rcases Nat.lt_or_ge k st.sources.paramNames.length with hk | hk
    · rw [List.getElem?_append_left hk] at h
      exact .param h
    · rw [List.getElem?_append_right hk] at h
      have hproduced := st.producedBy_of_target hsuffix h
      rwa [Nat.add_sub_cancel' hk] at hproduced

/-! ## The producer of a tensor is one -/

theorem mem_kept {op : OpDecl} :
    op ∈ st.sources.kept ↔ Decl.op op ∈ decls ∧ st.sources.folds op = false := by
  rw [Sources.kept, List.mem_filter, Bool.not_eq_true']
  nth_rewrite 1 [st.sources_eq]
  rw [Sources.mem_byKind_ops]

/-- The last step of a kept operator stands at the operator's id. -/
theorem getElem?_allNames_of_kept {before after : List OpDecl} {op : OpDecl}
    (hkept : st.sources.kept = before ++ op :: after) :
    st.allNames[st.sources.paramNames.length + (before.map OpDecl.nodeCount).sum
      + (op.nodeCount - 1)]? = some op.output := by
  have hlast := Step.getElem?_target_ofOp (f := st.folding) op op.output
  have hbefore : ((before.flatMap fun op => Step.ofOp st.folding op op.output).map
      Step.target).length = (before.map OpDecl.nodeCount).sum := by
    rw [List.length_map, Step.length_flatMap_ofOp]
  rw [allNames, List.getElem?_append_right (by omega), Nat.add_assoc, Nat.add_sub_cancel_left,
    st.steps_eq, hkept, List.flatMap_append, List.flatMap_cons, List.map_append, List.map_append,
    ← hbefore, List.getElem?_append_right (by omega), Nat.add_sub_cancel_left,
    List.getElem?_append_left (List.getElem?_eq_some_iff.mp hlast).1, hlast]

/-- A tensor stands at the id of a declaration that is kept, or is another name for a constant. -/
theorem producedBy_cases {t : Bytes} {i : Nat} (h : st.sources.ProducedBy t i) :
    (st.allNames[i]? = some t ∧ ∃ d ∈ decls, t ∈ d.products ∧
      ∀ op, d = .op op → st.sources.folds op = false) ∨
    ∃ op c axes, Decl.op op ∈ decls ∧ op.body = .squeeze c t axes ∧
      st.sources.folds op = true ∧ st.allNames[i]? = some c := by
  cases h with
  | param hid =>
    refine .inl ⟨st.getElem?_allNames_of_param hid, ?_⟩
    have hmem := List.mem_of_getElem? hid
    rw [Sources.paramNames, Numbering.paramNames, List.mem_append] at hmem
    rcases hmem with hmem | hmem
    · obtain ⟨d, hd, rfl⟩ := List.mem_map.mp hmem
      rw [st.sources_eq, Sources.mem_byKind_inputs] at hd
      exact ⟨_, hd, List.mem_singleton_self _, fun op h => by cases h⟩
    · obtain ⟨c, hc, rfl⟩ := List.mem_map.mp (List.mem_of_mem_filter hmem)
      rw [st.sources_eq, Sources.mem_byKind_consts] at hc
      exact ⟨_, hc, List.mem_singleton_self _, fun op h => by cases h⟩
  | @squeeze op c _ axes _ hop hbody hconst hid =>
    refine .inr ⟨op, c, axes, ?_, hbody, ?_, st.getElem?_allNames_of_param hid⟩
    · rwa [st.sources_eq, Sources.mem_byKind_ops] at hop
    · exact Sources.folds_iff.mpr ⟨c, t, axes, hbody, hconst⟩
  | @node before after op _ hkept ht =>
    have hop : op ∈ st.sources.kept := by
      rw [hkept]
      simp
    have hdecl := st.mem_kept.mp hop
    have houtput : t = op.output := by
      rw [st.outputs_eq op (List.mem_of_mem_filter hop)] at ht
      exact List.mem_singleton.mp ht
    refine .inl ⟨houtput ▸ st.getElem?_allNames_of_kept hkept, .op op, hdecl.1, ht, ?_⟩
    intro op' h
    cases h
    exact hdecl.2

theorem producedBy_unique (hunique : UniqueProducers decls) {t : Bytes} {i j : Nat}
    (hi : st.sources.ProducedBy t i) (hj : st.sources.ProducedBy t j) : i = j := by
  have hclash : ∀ {d : Decl} {op : OpDecl} {c : Bytes} {axes : List Int64}, d ∈ decls →
      t ∈ d.products → (∀ op, d = .op op → st.sources.folds op = false) → Decl.op op ∈ decls →
      op.body = .squeeze c t axes → st.sources.folds op = true → False := by
    intro d op c axes hd ht hkept hop hbody hfolds
    rcases hunique.eq_or_mayShare hd hop ht (Decl.mem_products_of_squeeze hbody) with rfl | hshare
    · rw [hkept op rfl] at hfolds
      cases hfolds
    · cases d <;> cases hshare
  rcases st.producedBy_cases hi with ⟨hi, d, hd, htd, hkept⟩ | ⟨op, c, axes, hop, hbody, hfolds, hi⟩
  · rcases st.producedBy_cases hj with ⟨hj, -⟩ | ⟨op, c, axes, hop, hbody, hfolds, -⟩
    · exact st.eq_of_getElem?_allNames hi hj
    · exact (hclash hd htd hkept hop hbody hfolds).elim
  · rcases st.producedBy_cases hj with ⟨-, d, hd, htd, hkept⟩ | ⟨op', c', axes', hop', hbody', -, hj⟩
    · exact (hclash hd htd hkept hop hbody hfolds).elim
    · rcases hunique.eq_or_mayShare hop hop' (Decl.mem_products_of_squeeze hbody)
        (Decl.mem_products_of_squeeze hbody') with heq | hshare
      · cases heq
        rw [hbody] at hbody'
        cases hbody'
        exact st.eq_of_getElem?_allNames hi hj
      · cases hshare

end Indexed

/-! ## Nodes -/

/-- The node of a numbered step. -/
structure StepNode (place : Nat) (s : NumberedStep) (n : Node) : Prop where
  id : n.id = place
  name : n.name = s.step.name
  type : n.op = s.step.type
  inputs : n.inputs = s.inputs.map Int.ofNat

/-- The nodes of numbered steps, the first of them with the given id. -/
inductive NodesFrom : Nat → List NumberedStep → List Node → Prop
  | nil (place : Nat) : NodesFrom place [] []
  | cons {place : Nat} {s : NumberedStep} {ss : List NumberedStep} {n : Node} {ns : List Node}
      (hn : StepNode place s n) (hns : NodesFrom (place + 1) ss ns) :
      NodesFrom place (s :: ss) (n :: ns)

theorem nodesFrom_nodes {numbering : Numbering} {live : List Nat} {flags : List Flags}
    (hlive : live.length = numbering.steps.length)
    (hflags : flags.length = numbering.steps.length) :
    NodesFrom numbering.params.length numbering.steps (nodes numbering live flags) := by
  -- generalized over the place of the first step, since the nodes are numbered from a start
  suffices ∀ (ss : List NumberedStep) (live : List Nat) (flags : List Flags) (start : Nat),
      live.length = ss.length → flags.length = ss.length →
      NodesFrom (numbering.params.length + start) ss
        (((ss.zip (live.zip flags)).zipIdx start).map fun x =>
          { id := numbering.params.length + x.2
            name := x.1.1.step.name
            inputs := x.1.1.inputs.map Int.ofNat
            op := x.1.1.step.type
            flags := x.1.2.2
            maxOutputId := x.1.2.1 }) by
    exact this numbering.steps live flags 0 hlive hflags
  intro ss
  induction ss with
  | nil =>
    intro live flags start _ _
    exact .nil _
  | cons s ss ih =>
    intro live flags start hlive hflags
    obtain ⟨last, live, rfl⟩ := List.exists_cons_of_length_eq_add_one hlive
    obtain ⟨flag, flags, rfl⟩ := List.exists_cons_of_length_eq_add_one hflags
    refine .cons ⟨by simp, rfl, rfl, rfl⟩ ?_
    exact ih live flags (start + 1) (Nat.succ.inj hlive) (Nat.succ.inj hflags)

namespace Indexed

variable {decls : List Decl} (st : Indexed decls)

theorem nodeOf_of_reads {op : OpDecl} {step : Step} {s : NumberedStep} {n : Node} {place : Nat}
    (hsuffix : ∀ t ∈ op.body.sources, ¬ ascii "_before_merge" <:+ t)
    (hname : step.name = op.name) (htype : step.type = op.body.type)
    (hsources : step.sources = op.body.sources.map st.folding.resolve)
    (hreads : Numbering.Reads st.allNames step s) (hn : StepNode place s n) :
    NodeOf st.sources place op n := by
  obtain ⟨rfl, hinputs⟩ := hreads
  refine ⟨hn.id, hn.name.trans hname, hn.type.trans htype, ?_⟩
  rw [hsources, List.forall₂_map_left_iff] at hinputs
  rw [hn.inputs, List.forall₂_map_right_iff]
  refine ((List.forall₂_and_left _ _).mpr ⟨hsuffix, hinputs⟩).imp ?_
  rintro t k ⟨ht, hk⟩
  rw [st.folds.resolve_eq] at hk
  exact ⟨k, rfl, st.producedBy_of_getElem? ht hk⟩

theorem mergeOf_of_reads {op : OpDecl} {s : NumberedStep} {m : Node} {place : Nat}
    (hplace : st.allNames[place]? = some (Step.beforeMerge op.output))
    (hreads : Numbering.Reads st.allNames
      ⟨op.line, Step.mergeName op.name, .convMerge, [Step.beforeMerge op.output], op.output, none⟩ s)
    (hm : StepNode (place + 1) s m) : MergeOf place op m := by
  obtain ⟨hstep, hinputs⟩ := hreads
  refine ⟨hm.id, ?_, ?_, ?_⟩
  · rw [hm.name, hstep]
    rfl
  · rw [hm.type, hstep]
  · obtain ⟨k, rest, hk, hrest, hs⟩ := List.forall₂_cons_left_iff.mp hinputs
    rw [List.forall₂_nil_left_iff] at hrest
    rw [hm.inputs, hs, hrest, st.eq_of_getElem?_allNames hk hplace]
    rfl

theorem mirrors_of_reads {pre : List Bytes} {ops : List OpDecl} {ss : List NumberedStep}
    {ns : List Node}
    (hsuffix : ∀ op ∈ ops, ∀ t ∈ op.body.sources, ¬ ascii "_before_merge" <:+ t)
    (hall : st.allNames =
      pre ++ (ops.flatMap fun op => Step.ofOp st.folding op op.output).map Step.target)
    (hreads : List.Forall₂ (Numbering.Reads st.allNames)
      (ops.flatMap fun op => Step.ofOp st.folding op op.output) ss)
    (hns : NodesFrom pre.length ss ns) : Mirrors st.sources pre.length ops ns := by
  -- on the operators that are left; `pre` holds the names of all ids before them
  induction ops generalizing pre ss ns with
  | nil =>
    rw [List.flatMap_nil, List.forall₂_nil_left_iff] at hreads
    subst hreads
    cases hns
    exact .nil _
  | cons op ops ih =>
    rw [List.forall_mem_cons] at hsuffix
    rw [List.flatMap_cons, List.map_append] at hall
    rw [List.flatMap_cons] at hreads
    by_cases htype : op.body.type = .conv
    · rw [Step.ofOp_conv htype] at hall hreads
      obtain ⟨s₁, _, hs₁, hrest, rfl⟩ := List.forall₂_cons_left_iff.mp hreads
      obtain ⟨s₂, _, hs₂, hrest₂, rfl⟩ := List.forall₂_cons_left_iff.mp hrest
      cases hns with
      | cons hn hns =>
        cases hns with
        | cons hm hns =>
          have hplace : st.allNames[pre.length]? = some (Step.beforeMerge op.output) := by
            simp [hall]
          refine .conv htype (st.nodeOf_of_reads hsuffix.1 rfl htype.symm rfl hs₁ hn)
            (st.mergeOf_of_reads hplace hs₂ hm) ?_
          have hmore := @ih (pre ++ [Step.beforeMerge op.output, op.output]) _ _ hsuffix.2
            (by simp [hall]) hrest₂ (by simpa using hns)
          simpa using hmore
    · rw [Step.ofOp_plain htype] at hall hreads
      obtain ⟨s, _, hs, hrest, rfl⟩ := List.forall₂_cons_left_iff.mp hreads
      cases hns with
      | cons hn hns =>
        refine .plain htype (st.nodeOf_of_reads hsuffix.1 rfl rfl rfl hs hn) ?_
        have hmore := @ih (pre ++ [op.output]) _ _ hsuffix.2 (by simp [hall]) hrest
          (by simpa using hns)
        simpa using hmore

/-- The nodes of a numbered graph, whatever is found for their lives and flags. -/
theorem mirrors_nodes
    (hsuffix : ∀ d ∈ decls, ∀ t ∈ d.sources ++ d.products, ¬ ascii "_before_merge" <:+ t)
    {live : List Nat} {flags : List Flags} (hlive : live.length = st.numbering.steps.length)
    (hflags : flags.length = st.numbering.steps.length) :
    Mirrors st.sources st.sources.paramNames.length st.sources.kept
      (nodes st.numbering live flags) := by
  have hreads : List.Forall₂ (Numbering.Reads st.allNames)
      (st.sources.kept.flatMap fun op => Step.ofOp st.folding op op.output) st.numbering.steps := by
    rw [allNames, ← st.names_eq, ← st.steps_eq]
    exact st.reads
  refine st.mirrors_of_reads ?_ ?_ hreads ?_
  · intro op hop t ht
    exact hsuffix _ (st.mem_kept.mp hop).1 t (List.mem_append_left _ ht)
  · rw [allNames, st.steps_eq]
  · rw [← st.names_eq, ← st.length_params]
    exact nodesFrom_nodes hlive hflags

end Indexed
end Compile

/-- Sorting, folding, expanding and numbering keep the data flow of a graph. The nodes are the operators
in order, without the squeezes of constants and with a merge behind every convolution; what they read
are the ids of the only producers of the tensors that the operators name. -/
theorem mirrors_of_numbering {decls : List Decl} {sources : Sources} {folding : Folding}
    {steps : List Step} {numbering : Numbering}
    (hunique : UniqueProducers decls)
    (hsuffix : ∀ d ∈ decls, ∀ t ∈ d.sources ++ d.products, ¬ ascii "_before_merge" <:+ t)
    (hsources : Sources.ofDecls decls = .ok sources)
    (hfolding : (Folding.ofSources sources).result = .ok folding)
    (hsteps : (Step.ofSources sources folding).result = .ok steps)
    (hnumbering : Numbering.ofSteps sources.inputs (sources.consts.map folding.reshape) steps =
      .ok numbering) :
    numbering.params.length = (Sources.byKind decls).paramNames.length ∧
    (∀ t i j, (Sources.byKind decls).ProducedBy t i → (Sources.byKind decls).ProducedBy t j →
      i = j) ∧
    (∀ live flags, live.length = numbering.steps.length →
      flags.length = numbering.steps.length →
      Mirrors (Sources.byKind decls) numbering.params.length (Sources.byKind decls).kept
        (Compile.nodes numbering live flags)) ∧
    ∀ samples config read plan overflows,
      (Compile.plan decls samples config read).result = .ok (plan, overflows) →
      plan.nInput = numbering.params.length ∧
      Mirrors (Sources.byKind decls) numbering.params.length (Sources.byKind decls).kept
        plan.nodes := by
  let st : Compile.Indexed decls :=
    ⟨sources, folding, steps, numbering, hsources, hfolding, hsteps, hnumbering⟩
  have hkinds : sources = Sources.byKind decls := st.sources_eq
  have hlength : numbering.params.length = (Sources.byKind decls).paramNames.length := by
    rw [← hkinds]
    exact st.length_params.trans (congrArg List.length st.names_eq)
  refine ⟨hlength, ?_, ?_, ?_⟩
  · rw [← hkinds]
    intro t i j
    exact st.producedBy_unique hunique
  · rw [hlength, ← hkinds]
    intro live flags hlive hflags
    exact st.mirrors_nodes hsuffix hlive hflags
  · intro samples config read plan overflows hplan
    obtain ⟨st'⟩ := Compile.planned_of_plan hplan
    have hlive := Compile.length_lastNeeded st'.numbering.params.length st'.numbering.steps
    have hmirrors := st'.mirrors_nodes hsuffix hlive st'.length_flags
    rw [st'.hplan, hlength, ← st'.sources_eq, ← st'.names_eq, ← st'.length_params]
    rw [← st'.names_eq, ← st'.length_params] at hmirrors
    exact ⟨rfl, hmirrors⟩

/-- An input that a constant supplies, a squeeze of a constant, a convolution and a dropout. The input
and the constant have the first ids, then the convolution, its merge, the dropout and the sum. -/
def squeezedConv : List Decl :=
  [.input ⟨1, ascii "x", 1, 2, 2⟩,
   .const ⟨2, ascii "x", .float, [1, 1, 2, 2], .inline [ascii "1", ascii "2", ascii "3", ascii "4"]⟩,
   .const ⟨3, ascii "k", .float, [1, 1, 1, 1, 1], .inline [ascii "0.5"]⟩,
   .op ⟨4, ascii "s", .squeeze (ascii "k") (ascii "w") [0]⟩,
   .op ⟨5, ascii "c", .conv (ascii "x") (ascii "w") none (ascii "y") [1, 1] .valid⟩,
   .op ⟨6, ascii "d", .dropout (ascii "y") (ascii "z") (some (ascii "m"))⟩,
   .op ⟨7, ascii "a", .plain .add [ascii "z", ascii "y"] [ascii "r"]⟩]

theorem squeezedConv_mirrors :
    UniqueProducers squeezedConv ∧
    (∀ d ∈ squeezedConv, ∀ t ∈ d.sources ++ d.products, ¬ ascii "_before_merge" <:+ t) ∧
    ∃ plan overflows,
      (Compile.plan squeezedConv [] { scale := 8 } fun _ => .error []).result =
        .ok (plan, overflows) ∧
      plan.nodes.map Node.inputs = [[0, 1], [2], [3], [4, 3]] ∧
      Mirrors (Sources.byKind squeezedConv) 2 (Sources.byKind squeezedConv).kept plan.nodes := by
  have hunique : UniqueProducers squeezedConv := by decide +kernel
  have hsuffix : ∀ d ∈ squeezedConv, ∀ t ∈ d.sources ++ d.products,
      ¬ ascii "_before_merge" <:+ t := by decide +kernel
  have hids : (Compile.plan squeezedConv [] { scale := 8 } fun _ => .error []).result.map
      (fun found => found.1.nodes.map Node.inputs) = .ok [[0, 1], [2], [3], [4, 3]] := by
    decide +kernel
  obtain ⟨⟨plan, overflows⟩, hplan, hids⟩ := map_eq_ok.mp hids
  obtain ⟨st⟩ := Compile.planned_of_plan hplan
  obtain ⟨hlength, -, -, hmirrors⟩ :=
    mirrors_of_numbering hunique hsuffix st.hsources st.hfolding st.hsteps st.hnumbering
  have hnames : (Sources.byKind squeezedConv).paramNames.length = 2 := by decide +kernel
  refine ⟨hunique, hsuffix, plan, overflows, hplan, hids, ?_⟩
  rw [← hnames, ← hlength]
  exact (hmirrors _ _ _ _ _ hplan).2

end NetImage
