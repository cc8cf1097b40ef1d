import NetImage.Proofs.Build.SingleAssignment

/-!
# NetImage.Proofs.Build.DeclaredBeforeUse

What an operator may read. Numbering lets a step read only what stands before it; of the graph itself
this leaves two gaps. The output of a folded squeeze is another name for a constant from the start, so
it may be read before the squeeze is declared. And the tensor between a convolution and its merge has
a name that no declaration produces, which an operator behind the convolution may read.

* `DeclaredBeforeUse`: every tensor is declared before an operator reads it.
* `FoldedBehind`, `BetweenBefore`: the tensors that may be read without that.
* `Compile.Indexed.operand_cases`: what one operator reads.
* `declaredBeforeUse_iff_of_numbering`: what all operators read.
-/

namespace NetImage

/-- The tensor of an input or a constant of the graph, or one that a declaration before place `i`
produces. -/
def DeclaredAt (decls : List Decl) (i : Nat) (t : Bytes) : Prop :=
  (∃ d ∈ decls, d.op? = none ∧ t ∈ d.products) ∨ ∃ d ∈ decls.take i, t ∈ d.products

instance (decls : List Decl) (i : Nat) (t : Bytes) : Decidable (DeclaredAt decls i t) :=
  inferInstanceAs (Decidable (_ ∨ _))

/-- Every tensor is declared before an operator reads it. -/
def DeclaredBeforeUse (decls : List Decl) : Prop :=
  ∀ x ∈ decls.zipIdx, ∀ t ∈ x.1.sources, DeclaredAt decls x.2 t

instance (decls : List Decl) : Decidable (DeclaredBeforeUse decls) :=
  inferInstanceAs (Decidable (∀ x ∈ decls.zipIdx, _))

/-- The output of a squeeze behind place `i` that is folded. -/
def FoldedBehind (decls : List Decl) (i : Nat) (t : Bytes) : Prop :=
  ∃ d ∈ decls.drop (i + 1), (Sources.byKind decls).leavesOut d = true ∧ t ∈ d.products

/-- The tensor between a convolution before place `i` and its merge. -/
def BetweenBefore (decls : List Decl) (i : Nat) (t : Bytes) : Prop :=
  ∃ d ∈ decls.take i, ∃ op ∈ d.op?, op.body.type = .conv ∧ t = Step.beforeMerge op.output

theorem eq_take_cons_drop {decls : List Decl} {i : Nat} {d : Decl} (h : decls[i]? = some d) :
    decls = decls.take i ++ d :: decls.drop (i + 1) := by
  obtain ⟨hi, hd⟩ := List.getElem?_eq_some_iff.mp h
  rw [← hd, List.getElem_cons_drop, List.take_append_drop]

namespace Compile
namespace Indexed

variable {decls : List Decl} (st : Indexed decls)

include st in
theorem declaredAt_of_mem_paramNames {t : Bytes} (h : t ∈ st.sources.paramNames) (i : Nat) :
    DeclaredAt decls i t := by
  rw [Sources.paramNames, Numbering.paramNames, List.mem_append] at h
  rcases h with h | h
  · obtain ⟨d, hd, rfl⟩ := List.mem_map.mp h
    rw [st.sources_eq, Sources.mem_byKind_inputs] at hd
    exact .inl ⟨_, hd, rfl, List.mem_singleton_self _⟩
  · obtain ⟨c, hc, rfl⟩ := List.mem_map.mp (List.mem_of_mem_filter h)
    rw [st.sources_eq, Sources.mem_byKind_consts] at hc
    exact .inl ⟨_, hc, rfl, List.mem_singleton_self _⟩

/-- The operators that are kept before an operator of the graph stand before it there. -/
theorem kept_split {i : Nat} {op : OpDecl} (h : decls[i]? = some (.op op))
    (hkept : st.sources.folds op = false) :
    ∃ before after, st.sources.kept = before ++ op :: after ∧
      ∀ op' ∈ before, Decl.op op' ∈ decls.take i := by
  have hops : st.sources.ops =
      (decls.take i).filterMap Decl.op? ++ op :: (decls.drop (i + 1)).filterMap Decl.op? := by
    rw [st.ops_eq]
    nth_rewrite 1 [eq_take_cons_drop h]
    rw [List.filterMap_append]
    rfl
  refine ⟨((decls.take i).filterMap Decl.op?).filter fun op => !st.sources.folds op,
    ((decls.drop (i + 1)).filterMap Decl.op?).filter fun op => !st.sources.folds op, ?_, ?_⟩
  · rw [Sources.kept, hops, List.filter_append, List.filter_cons_of_pos (by simp [hkept])]
  · intro op' hop'
    obtain ⟨d, hd, hop⟩ := List.mem_filterMap.mp (List.mem_of_mem_filter hop')
    cases d with
    | op op'' =>
      cases hop
      exact hd
    | _ => cases hop

/-- What an operator reads, it reads under a name from before its first step. -/
theorem redirect_mem_namesBefore {before after : List OpDecl} {op : OpDecl}
    (hkept : st.sources.kept = before ++ op :: after) {t : Bytes} (ht : t ∈ op.body.sources) :
    st.sources.redirect t ∈ st.namesBefore (nodeTotal before) := by
  obtain ⟨s, -, -, hreads⟩ := st.reads_at (st.getElem?_steps_main hkept)
  have hmem : st.sources.redirect t ∈ (Step.main st.folding op).sources := by
    rw [← st.folds.resolve_eq]
    exact List.mem_map_of_mem ht
  obtain ⟨id, -, hid⟩ := exists_right_of_forall₂ hreads hmem
  exact List.mem_of_getElem? hid

include st in
theorem operand_cases {i : Nat} {op : OpDecl} (h : decls[i]? = some (.op op)) {t : Bytes}
    (ht : t ∈ op.body.sources) :
    DeclaredAt decls i t ∨ FoldedBehind decls i t ∨ BetweenBefore decls i t := by
  cases hfolds : st.sources.folds op with
  | true =>
    -- a folded squeeze reads its constant
    obtain ⟨c, u, axes, hbody, hconst⟩ := Sources.folds_iff.mp hfolds
    rw [hbody, OpBody.sources, List.mem_singleton] at ht
    subst ht
    exact .inl (st.declaredAt_of_mem_paramNames (st.mem_paramNames_of_const hconst) i)
  | false =>
    obtain ⟨before, after, hkept, hbefore⟩ := st.kept_split h hfolds
    have hmem := st.redirect_mem_namesBefore hkept ht
    rcases st.sources.redirect_cases t with hself | ⟨hconst, sq, hsq, axes, hbody⟩
    · rw [hself] at hmem
      rcases st.namesBefore_cases hkept hmem with hparam | ⟨op', hop', hout | ⟨hconv, hbetween⟩⟩
      · exact .inl (st.declaredAt_of_mem_paramNames hparam i)
      · have hdecl := hbefore op' hop'
        exact .inl (.inr ⟨_, hdecl, st.mem_products_iff (List.mem_of_mem_take hdecl) |>.mpr hout⟩)
      · exact .inr (.inr ⟨_, hbefore op' hop', op', rfl, hconv, hbetween⟩)
    · -- the squeeze that makes `t` a name for its constant stands before or behind, and is not `op`
      have hfolded : st.sources.folds sq = true := Sources.folds_iff.mpr ⟨_, t, axes, hbody, hconst⟩
      have hout := Decl.mem_products_of_squeeze hbody
      have hmem : Decl.op sq ∈ decls := by rwa [st.sources_eq, Sources.mem_byKind_ops] at hsq
      rw [eq_take_cons_drop h, List.mem_append, List.mem_cons] at hmem
      rcases hmem with hbefore | hop | hbehind
      · exact .inl (.inr ⟨_, hbefore, hout⟩)
      · cases hop
        rw [hfolds] at hfolded
        cases hfolded
      · rw [st.sources_eq] at hfolded
        exact .inr (.inl ⟨_, hbehind, hfolded, hout⟩)

end Indexed
end Compile

/-- What the operators of a numbered graph read. Every operand is declared before its reader, but for
the outputs of squeezes behind it that are folded and the tensors between convolutions before it and
their merges. So a graph declares its tensors before it uses them if and only if no such name is read
that is not declared as well. -/
theorem declaredBeforeUse_iff_of_numbering {decls : List Decl} {sources : Sources}
    {folding : Folding} {steps : List Step} {numbering : Numbering}
    (hsources : Sources.ofDecls decls = .ok sources)
    (hfolding : (Folding.ofSources sources).result = .ok folding)
    (hsteps : (Step.ofSources sources folding).result = .ok steps)
    (hnumbering : Numbering.ofSteps sources.inputs (sources.consts.map folding.reshape) steps =
      .ok numbering) :
    (∀ (i : Nat) (op : OpDecl), decls[i]? = some (.op op) → ∀ t ∈ op.body.sources,
      DeclaredAt decls i t ∨ FoldedBehind decls i t ∨ BetweenBefore decls i t) ∧
    (DeclaredBeforeUse decls ↔
      ∀ x ∈ decls.zipIdx, ∀ t ∈ x.1.sources,
        FoldedBehind decls x.2 t ∨ BetweenBefore decls x.2 t → DeclaredAt decls x.2 t) := by
  let st : Compile.Indexed decls :=
    ⟨sources, folding, steps, numbering, hsources, hfolding, hsteps, hnumbering⟩
  refine ⟨fun i op h t ht => st.operand_cases h ht, ?_, ?_⟩
  · intro h x hx t ht _
    exact h x hx t ht
  · rintro h ⟨d, i⟩ hx t ht
    have hd : decls[i]? = some d := List.mk_mem_zipIdx_iff_getElem?.mp hx
    cases d with
    | input d => cases ht
    | const c => cases ht
    | op op =>
      rcases st.operand_cases hd ht with hdeclared | hgap
      · exact hdeclared
      · exact h _ hx t ht hgap

theorem squeezedBias_declaredBeforeUse :
    ∃ (sources : Sources) (folding : Folding) (steps : List Step) (numbering : Numbering),
      Sources.ofDecls squeezedBias = .ok sources ∧
      (Folding.ofSources sources).result = .ok folding ∧
      (Step.ofSources sources folding).result = .ok steps ∧
      Numbering.ofSteps sources.inputs (sources.consts.map folding.reshape) steps = .ok numbering ∧
      DeclaredBeforeUse squeezedBias := by
  have hok : (Compile.plan squeezedBias [] { scale := 8 } fun _ => .error []).result.isOk = true := by
    decide +kernel
  obtain ⟨⟨plan, overflows⟩, hplan⟩ := exists_of_isOk hok
  obtain ⟨st⟩ := Compile.planned_of_plan hplan
  have hgaps : ∀ x ∈ squeezedBias.zipIdx, ∀ t ∈ x.1.sources,
      FoldedBehind squeezedBias x.2 t ∨ BetweenBefore squeezedBias x.2 t →
        DeclaredAt squeezedBias x.2 t := by
    unfold FoldedBehind BetweenBefore
    decide +kernel
  exact ⟨_, _, _, _, st.hsources, st.hfolding, st.hsteps, st.hnumbering,
    (declaredBeforeUse_iff_of_numbering st.hsources st.hfolding st.hsteps st.hnumbering).2.mpr hgaps⟩

/-- Two operators that read what no declaration before them produces: `b`, whose squeeze is declared
last, and the tensor between a convolution and its merge. -/
def readTooEarly : Bytes := ascii
  "Input ToTensor=x Channels=1 Height=1 Width=2
Const ToTensor=k Type=Int64 Dims=1x2 Data=1,2
Const ToTensor=w Type=Int64 Dims=1 Data=3
Add Name=a FromTensor1=x FromTensor2=b ToTensor=y
Conv Name=c FromTensor=y WeightsTensor=w BiasesTensor=- ToTensor=z Strides=1,1 AutoPad=VALID
Relu Name=r FromTensor=z_before_merge ToTensor=u
Squeeze Name=s FromTensor=k ToTensor=b Axes=0
"

/-- They compile; the first reads the constant, and the second the convolution. -/
theorem readTooEarly_not_declared :
    ∃ out decls,
      (compile readTooEarly [] { scale := 8, nvmSize := 2000 } fun _ => .error []).result = .ok out ∧
      parse readTooEarly = .ok decls ∧ ¬ DeclaredBeforeUse decls ∧
      ¬ DeclaredAt decls 3 (ascii "b") ∧ ¬ DeclaredAt decls 5 (ascii "z_before_merge") ∧
      out.plan.nodes.map Node.inputs = [[0, 1], [3, 2], [4], [4]] := by
  have hnodes : (compile readTooEarly [] { scale := 8, nvmSize := 2000 }
      fun _ => .error []).result.map (fun out => out.plan.nodes.map Node.inputs) =
      .ok [[0, 1], [3, 2], [4], [4]] := by
    decide +kernel
  have hdecls : (parse readTooEarly).map (fun decls =>
      (decide (DeclaredBeforeUse decls), decide (DeclaredAt decls 3 (ascii "b")),
        decide (DeclaredAt decls 5 (ascii "z_before_merge")))) = .ok (false, false, false) := by
    decide +kernel
  obtain ⟨out, hout, hinputs⟩ := map_eq_ok.mp hnodes
  obtain ⟨decls, hparse, hdecls⟩ := map_eq_ok.mp hdecls
  simp only [Prod.mk.injEq, decide_eq_false_iff_not] at hdecls
  exact ⟨out, decls, hout, hparse, hdecls.1, hdecls.2.1, hdecls.2.2, hinputs⟩

end NetImage
