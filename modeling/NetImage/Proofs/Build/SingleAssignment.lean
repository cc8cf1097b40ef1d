import NetImage.Proofs.Build.Operands

/-!
# NetImage.Proofs.Build.SingleAssignment

Which names are produced once. Sorting compares inputs with inputs and constants with constants, and
numbering compares the outputs of the steps with all of them. The output of a squeeze that is folded
is in neither list: nothing compares it with anything.

* `uniqueProducers_iff`: what is left to the folded squeezes.
* `Compile.Indexed.nodup_outputs`: parameters and kept operators have different names.
* `Compile.Indexed.uniqueProducers_filter`: single assignment, folded squeezes apart.
* `uniqueProducers_iff_of_numbering`: single assignment.
-/

namespace NetImage

/-- Is this declaration a squeeze that is folded? -/
def Sources.leavesOut (g : Sources) : Decl → Bool
  | .op op => g.folds op
  | _ => false

theorem Sources.mayShare_eq_false {g : Sources} {d e : Decl}
    (h : g.leavesOut d = true ∨ g.leavesOut e = true) : d.mayShare e = false := by
  cases d with
  | op op => rfl
  | input i =>
    cases e with
    | const c => simp [Sources.leavesOut] at h
    | _ => rfl
  | const c =>
    cases e with
    | input i => simp [Sources.leavesOut] at h
    | _ => rfl

/-- A graph whose other declarations are in single assignment is so if and only if the outputs of its
folded squeezes are new names. -/
theorem uniqueProducers_iff {g : Sources} {decls : List Decl}
    (hkept : UniqueProducers (decls.filter fun d => !g.leavesOut d)) :
    UniqueProducers decls ↔ decls.Pairwise fun d e =>
      g.leavesOut d = true ∨ g.leavesOut e = true → ∀ t ∈ d.products, t ∉ e.products := by
  constructor
  · intro hunique
    refine hunique.imp ?_
    intro d e hshare hfolded t htd hte
    have hmay := hshare t htd hte
    rw [Sources.mayShare_eq_false hfolded] at hmay
    cases hmay
  · intro hnew
    rw [UniqueProducers, List.pairwise_iff_forall_sublist]
    intro d e hsub t htd hte
    by_cases hfolded : g.leavesOut d = true ∨ g.leavesOut e = true
    · exact absurd hte (List.pairwise_iff_forall_sublist.mp hnew hsub hfolded t htd)
    · have hpair : [d, e].filter (fun d => !g.leavesOut d) = [d, e] := by
        simp only [not_or, Bool.not_eq_true] at hfolded
        simp [hfolded]
      have hsub := hsub.filter fun d => !g.leavesOut d
      rw [hpair] at hsub
      exact List.pairwise_iff_forall_sublist.mp hkept hsub t htd hte

/-- Two declarations of a kind whose names do not repeat have different names. -/
theorem name_ne_of_pair_sublist {α : Type} {kind : Decl → Option α} {name : α → Bytes}
    {ds : List Decl} (hnodup : ((ds.filterMap kind).map name).Nodup) {d e : Decl}
    (hsub : [d, e].Sublist ds) {a b : α} (ha : kind d = some a) (hb : kind e = some b) :
    name a ≠ name b := by
  have hpair : [d, e].filterMap kind = [a, b] := by
    rw [List.filterMap_cons_some ha, List.filterMap_cons_some hb, List.filterMap_nil]
  have hnames := hnodup.sublist ((hsub.filterMap kind).map name)
  rw [hpair] at hnames
  intro heq
  simp [heq] at hnames

namespace Compile
namespace Indexed

variable {decls : List Decl} (st : Indexed decls)

theorem map_output_sublist :
    (st.sources.kept.map OpDecl.output).Sublist (st.steps.map Step.target) := by
  rw [st.steps_eq]
  induction st.sources.kept with
  | nil => exact List.Sublist.refl _
  | cons op ops ih =>
    rw [List.flatMap_cons, List.map_append, List.map_cons, ← List.singleton_append]
    refine List.Sublist.append ?_ ih
    rw [List.singleton_sublist]
    exact List.mem_of_getElem? (Step.getElem?_target_ofOp op op.output)

theorem nodup_outputs : (st.sources.paramNames ++ st.sources.kept.map OpDecl.output).Nodup :=
  st.nodup_allNames.sublist (st.map_output_sublist.append_left _)

theorem kept_eq_filterMap :
    st.sources.kept = (decls.filter fun d => !st.sources.leavesOut d).filterMap Decl.op? := by
  rw [Sources.kept, st.ops_eq, List.filter_filterMap, List.filterMap_filter]
  refine List.filterMap_congr ?_
  intro d _
  cases d with
  | input d => rfl
  | const d => rfl
  | op op => cases h : st.sources.folds op <;> simp [Decl.op?, Sources.leavesOut, h]

/-- The names of an input and of a constant are those of parameters. -/
theorem mem_paramNames_of_mem {d : Decl} (hd : d ∈ decls) (hop : d.op? = none) {t : Bytes}
    (ht : t ∈ d.products) : t ∈ st.sources.paramNames := by
  cases d with
  | input d =>
    rw [List.mem_singleton.mp ht, Sources.paramNames, Numbering.paramNames, List.mem_append]
    refine .inl (List.mem_map_of_mem ?_)
    rwa [st.sources_eq, Sources.mem_byKind_inputs]
  | const c =>
    rw [List.mem_singleton.mp ht]
    refine st.mem_paramNames_of_const (List.mem_map_of_mem ?_)
    rwa [st.sources_eq, Sources.mem_byKind_consts]
  | op op => cases hop

include st in
theorem mem_products_iff {op : OpDecl} (h : Decl.op op ∈ decls) {t : Bytes} :
    t ∈ (Decl.op op).products ↔ t = op.output := by
  have hop : op ∈ st.sources.ops := by rwa [st.sources_eq, Sources.mem_byKind_ops]
  rw [Decl.products, st.outputs_eq op hop, List.mem_singleton]

/-- An operator that is kept writes no parameter. -/
theorem not_mem_products {d : Decl} (hd : d ∈ decls) (hparam : d.op? = none) {op : OpDecl}
    (hop : Decl.op op ∈ decls) (hkept : st.sources.leavesOut (.op op) = false) {t : Bytes}
    (ht : t ∈ d.products) : t ∉ (Decl.op op).products := by
  intro hout
  have hname : t ∈ st.sources.kept.map OpDecl.output := by
    rw [(st.mem_products_iff hop).mp hout]
    exact List.mem_map_of_mem (st.mem_kept.mpr ⟨hop, hkept⟩)
  exact (List.nodup_append.mp st.nodup_outputs).2.2 t (st.mem_paramNames_of_mem hd hparam ht) t hname
    rfl

theorem uniqueProducers_filter :
    UniqueProducers (decls.filter fun d => !st.sources.leavesOut d) := by
  have hinputs := st.named.inputs
  have hconsts := st.named.consts
  have houtputs := (List.nodup_append.mp st.nodup_outputs).2.1
  rw [st.kept_eq_filterMap] at houtputs
  rw [UniqueProducers, List.pairwise_iff_forall_sublist]
  intro d e hsub t htd hte
  obtain ⟨hd, hdkept⟩ := List.mem_filter.mp (hsub.subset List.mem_cons_self)
  obtain ⟨he, hekept⟩ := List.mem_filter.mp
    (hsub.subset (List.mem_cons_of_mem _ List.mem_cons_self))
  rw [Bool.not_eq_true'] at hdkept hekept
  have hall := hsub.trans List.filter_sublist
  rw [st.sources_eq] at hinputs hconsts
  -- within a kind its names do not repeat, and a parameter is not written by an operator
  cases d with
  | input i =>
    cases e with
    | input j =>
      have hne := name_ne_of_pair_sublist hinputs hall rfl rfl
      exact absurd ((List.mem_singleton.mp htd).symm.trans (List.mem_singleton.mp hte)) hne
    | const c => rfl
    | op op => exact absurd hte (st.not_mem_products hd rfl he hekept htd)
  | const c =>
    cases e with
    | input i => rfl
    | const c' =>
      have hne := name_ne_of_pair_sublist hconsts hall rfl rfl
      exact absurd ((List.mem_singleton.mp htd).symm.trans (List.mem_singleton.mp hte)) hne
    | op op => exact absurd hte (st.not_mem_products hd rfl he hekept htd)
  | op op =>
    cases e with
    | input i => exact absurd htd (st.not_mem_products he rfl hd hdkept hte)
    | const c => exact absurd htd (st.not_mem_products he rfl hd hdkept hte)
    | op op' =>
      have hne := name_ne_of_pair_sublist houtputs hsub rfl rfl
      rw [st.mem_products_iff hd] at htd
      rw [st.mem_products_iff he] at hte
      exact absurd (htd.symm.trans hte) hne

end Indexed
end Compile

/-- Sorting and numbering give single assignment but for the squeezes that are folded. With these a
graph is in single assignment if and only if their outputs are new names, which nothing checks. -/
theorem uniqueProducers_iff_of_numbering {decls : List Decl} {sources : Sources} {folding : Folding}
    {steps : List Step} {numbering : Numbering}
    (hsources : Sources.ofDecls decls = .ok sources)
    (hfolding : (Folding.ofSources sources).result = .ok folding)
    (hsteps : (Step.ofSources sources folding).result = .ok steps)
    (hnumbering : Numbering.ofSteps sources.inputs (sources.consts.map folding.reshape) steps =
      .ok numbering) :
    UniqueProducers (decls.filter fun d => !(Sources.byKind decls).leavesOut d) ∧
    (UniqueProducers decls ↔
      decls.Pairwise fun d e =>
        (Sources.byKind decls).leavesOut d = true ∨ (Sources.byKind decls).leavesOut e = true →
          ∀ t ∈ d.products, t ∉ e.products) := by
  let st : Compile.Indexed decls :=
    ⟨sources, folding, steps, numbering, hsources, hfolding, hsteps, hnumbering⟩
  have hkept := st.uniqueProducers_filter
  rw [st.sources_eq] at hkept
  exact ⟨hkept, uniqueProducers_iff hkept⟩

/-- A bias that is squeezed before it is added. -/
def squeezedBias : List Decl :=
  [.input ⟨1, ascii "x", 1, 1, 2⟩,
   .const ⟨2, ascii "k", .int64, [1, 2], .inline [ascii "1", ascii "2"]⟩,
   .op ⟨3, ascii "s", .squeeze (ascii "k") (ascii "b") [0]⟩,
   .op ⟨4, ascii "a", .plain .add [ascii "x", ascii "b"] [ascii "y"]⟩]

theorem squeezedBias_unique :
    ∃ (sources : Sources) (folding : Folding) (steps : List Step) (numbering : Numbering),
      Sources.ofDecls squeezedBias = .ok sources ∧
      (Folding.ofSources sources).result = .ok folding ∧
      (Step.ofSources sources folding).result = .ok steps ∧
      Numbering.ofSteps sources.inputs (sources.consts.map folding.reshape) steps = .ok numbering ∧
      (Sources.byKind squeezedBias).kept.length = 1 ∧ UniqueProducers squeezedBias := by
  have hok : (Compile.plan squeezedBias [] { scale := 8 } fun _ => .error []).result.isOk = true := by
    decide +kernel
  obtain ⟨⟨plan, overflows⟩, hplan⟩ := exists_of_isOk hok
  obtain ⟨st⟩ := Compile.planned_of_plan hplan
  have hnew : squeezedBias.Pairwise fun d e =>
      (Sources.byKind squeezedBias).leavesOut d = true ∨
        (Sources.byKind squeezedBias).leavesOut e = true → ∀ t ∈ d.products, t ∉ e.products := by
    decide +kernel
  have hunique := (uniqueProducers_iff_of_numbering st.hsources st.hfolding st.hsteps
    st.hnumbering).2.mpr hnew
  exact ⟨_, _, _, _, st.hsources, st.hfolding, st.hsteps, st.hnumbering, by decide +kernel, hunique⟩

/-- Two producers of `y`: a squeeze that is folded, and an operator. -/
def sharedOutput : Bytes := ascii
  "Input ToTensor=x Channels=1 Height=1 Width=2
Const ToTensor=k Type=Int64 Dims=1x2 Data=1,2
Squeeze Name=s FromTensor=k ToTensor=y Axes=0
Relu Name=r FromTensor=x ToTensor=y
Softmax Name=t FromTensor=y ToTensor=z
"

/-- It compiles, and the last node reads the constant, which has id 1, and not the node before it. -/
theorem sharedOutput_not_unique :
    ∃ out decls,
      (compile sharedOutput [] { scale := 8, nvmSize := 2000 } fun _ => .error []).result = .ok out ∧
      parse sharedOutput = .ok decls ∧ ¬ UniqueProducers decls ∧
      out.plan.nodes.map Node.id = [2, 3] ∧ out.plan.nodes.map Node.inputs = [[0], [1]] := by
  have hnodes : (compile sharedOutput [] { scale := 8, nvmSize := 2000 }
      fun _ => .error []).result.map
        (fun out => (out.plan.nodes.map Node.id, out.plan.nodes.map Node.inputs)) =
      .ok ([2, 3], [[0], [1]]) := by
    decide +kernel
  have hshared : (parse sharedOutput).map (fun decls => decide (UniqueProducers decls)) =
      .ok false := by
    decide +kernel
  obtain ⟨out, hout, hnodes⟩ := map_eq_ok.mp hnodes
  obtain ⟨decls, hparse, hshared⟩ := map_eq_ok.mp hshared
  obtain ⟨hids, hinputs⟩ := Prod.mk.inj hnodes
  exact ⟨out, decls, hout, hparse, of_decide_eq_false hshared, hids, hinputs⟩

end NetImage
