import NetImage.Proofs.Build.Operands
import NetImage.Proofs.Build.StoredConstants

/-!
# NetImage.Proofs.Build.ConstantUses

What an operand finds that reads a constant. A constant has one record for all its readers. Its
squeeze changes the shape for those that name the constant too, and a convolution that reads it as
weights changes the order of its values for all: shape and order depend on the graph, and not on the
name or the place of the operand.

* `ConstDecl.StoredAs.rows`: the constants whose values stay in their order.
* `Compiled.ReadsConstant`: the record of a constant, as its reader finds it.
* `Compile.Ends.readsConstant`: what placing has recorded is so.
* `readsConstants_of_compile`: all operands of a compiled model.
* `addSqueezed_not_declared`, `addWeights_not_rows`: a shape and an order that are not as declared.
-/

namespace NetImage

/-- The values of constant `c` are in the image at record `p`, in the order of the declaration. -/
def Compiled.KeepsRows (out : Compiled) (read : FileReader) (c : ConstDecl) (p : Param) : Prop :=
  ∃ start offset size : Nat,
    out.image.offsets[Stream.all.idxOf (Stream.ofSlot p.slot)]? = some (start : Int) ∧
    p.offset = offset ∧ p.bytes = size ∧
    c.StoredAs read out.plan.config.scale False p.dims p.type
      (out.image.part (start + offset) (start + offset + size))

theorem Compiled.KeepsRows.stored {out : Compiled} {read : FileReader} {c : ConstDecl} {p : Param}
    (h : out.KeepsRows read c p) {start offset size : Nat}
    (hstart : out.image.offsets[Stream.all.idxOf (Stream.ofSlot p.slot)]? = some (start : Int))
    (hoffset : p.offset = offset) (hsize : p.bytes = size) :
    c.StoredAs read out.plan.config.scale False p.dims p.type
      (out.image.part (start + offset) (start + offset + size)) := by
  obtain ⟨start', offset', size', hstart', hoffset', hsize', hstored⟩ := h
  obtain rfl : start' = start := Int.ofNat_inj.mp (Option.some.inj (hstart'.symm.trans hstart))
  obtain rfl : offset' = offset := Int.ofNat_inj.mp (hoffset'.symm.trans hoffset)
  obtain rfl : size' = size := Int.ofNat_inj.mp (hsize'.symm.trans hsize)
  exact hstored

/-- The record `p` of constant `c`, as a reader finds it under the name `t`. -/
structure Compiled.ReadsConstant (out : Compiled) (decls : List Decl) (read : FileReader)
    (t : Bytes) (c : ConstDecl) (p : Param) : Prop extends out.Holds decls read c p where
  named : t = c.tensor ∨ ∃ op axes, Decl.op op ∈ decls ∧ op.body = .squeeze c.tensor t axes
  squeezed : ∀ op u axes, Decl.op op ∈ decls → op.body = .squeeze c.tensor u axes →
    p.dims = (withoutAxes c.dims axes).map Int64.toInt
  declared : (∀ op u axes, Decl.op op ∈ decls → op.body ≠ .squeeze c.tensor u axes) →
    p.dims = c.dims.map Int64.toInt
  rows : ¬ (c.type = .float ∧ (Sources.byKind decls).IsWeights c.tensor) → out.KeepsRows read c p

/-- The id that is read under the name `t`. If it is that of a constant, the name is one of this
constant, and if the name stands for a constant, the id is that of its record. -/
def Compiled.ReadsAt (out : Compiled) (decls : List Decl) (read : FileReader) (t : Bytes)
    (i : Int) : Prop :=
  ∃ id : Nat, i = id ∧
    (∀ p, out.plan.params[id]? = some p → p.input = false →
      ∃ c, Decl.const c ∈ decls ∧ out.ReadsConstant decls read t c p) ∧
    (∀ c, Decl.const c ∈ decls → (Sources.byKind decls).redirect t = c.tensor →
      ∃ p, out.plan.params[id]? = some p ∧ out.ReadsConstant decls read t c p)

/-- Only the values of real constants that are weights are moved. -/
theorem ConstDecl.StoredAs.rows {c : ConstDecl} {read : FileReader} {scale : Int64} {weights : Prop}
    {dims : List Int} {type : ParamType} {bytes : Bytes}
    (h : c.StoredAs read scale weights dims type bytes) (hrows : ¬ (c.type = .float ∧ weights)) :
    c.StoredAs read scale False dims type bytes := by
  cases h with
  | reals htype hvalues horder hbytes hwords =>
    rcases horder with ⟨hweights, -⟩ | ⟨-, hsame⟩
    · exact absurd ⟨htype, hweights⟩ hrows
    · exact .reals htype hvalues (.inr ⟨not_false, hsame⟩) hbytes hwords
  | integers htype hvalues hbytes hwords => exact .integers htype hvalues hbytes hwords

theorem Parameters.Recorded.dims_eq {ctx : Context} {r : Regions} {c : ConstDecl} {p : Param}
    (h : Recorded ctx r (.stored c) p) : p.dims = c.dims.map Int64.toInt := by
  cases h
  rfl

namespace Compile

variable {decls : List Decl} {samples : List Sample} {config : Config} {read : FileReader}
  {out : Compiled} {st : Finished decls samples config read out} {s : Parameters.State}

theorem Ends.getElem?_paramNames (h : Ends st s) {id : Nat} {p : Param}
    (hp : out.plan.params[id]? = some p) : st.sources.paramNames[id]? = some p.name := by
  have hnames := h.map_name_records
  rw [← Indexed.names, st.names_eq] at hnames
  rw [← hnames, List.getElem?_map, hp, Option.map_some]

theorem Ends.readsConstant (h : Ends st s) (hrange : ∀ d ∈ decls, d.InRange) {c : ConstDecl}
    (hc : Decl.const c ∈ decls) {p : Param}
    (hp : Parameters.Recorded st.context s.regions (.stored (st.folding.reshape c)) p) {t : Bytes}
    (ht : st.sources.redirect t = c.tensor) : out.ReadsConstant decls read t c p := by
  have hholds := h.holds_of_recorded hrange hc hp
  have hmem : c ∈ st.sources.consts := by rwa [st.sources_eq, Sources.mem_byKind_consts]
  have hops : ∀ op, op ∈ st.sources.ops ↔ Decl.op op ∈ decls := by
    intro op
    rw [st.sources_eq, Sources.mem_byKind_ops]
  refine ⟨hholds, ?_, ?_, ?_, ?_⟩
  · rcases st.sources.redirect_cases t with hself | ⟨-, op, hop, axes, hbody⟩
    · exact .inl (hself.symm.trans ht)
    · rw [ht] at hbody
      exact .inr ⟨op, axes, (hops op).mp hop, hbody⟩
  · intro op u axes hop hbody
    rw [hp.dims_eq, st.folds.reshape_squeezed hmem ((hops op).mpr hop) hbody]
  · intro hplain
    rw [hp.dims_eq, st.folds.reshape_untouched hmem]
    intro op hop u axes
    exact hplain op u axes ((hops op).mp hop)
  · intro hrows
    obtain ⟨start, offset, size, hstart, hoffset, hsize, hstored⟩ := hholds.contents
    exact ⟨start, offset, size, hstart, hoffset, hsize, hstored.rows hrows⟩

section
variable (h : Ends st s) (hrange : ∀ d ∈ decls, d.InRange) {t : Bytes} {id : Nat}
  (hid : st.allNames[id]? = some (st.sources.redirect t))
include h hrange hid

/-- An operand with the id of a constant's record names the constant. -/
theorem Ends.readsConstant_of_record {p : Param} (hp : out.plan.params[id]? = some p)
    (hinput : p.input = false) :
    ∃ c, Decl.const c ∈ decls ∧ out.ReadsConstant decls read t c p := by
  have hname := st.getElem?_allNames_of_param (h.getElem?_paramNames hp)
  rw [hid] at hname
  rw [h.records] at hp
  obtain ⟨src, hsrc, hrecorded⟩ :=
    exists_left_of_forall₂ h.placed.records (List.mem_of_getElem? hp)
  cases src with
  | fed i =>
    cases hrecorded
    cases hinput
  | stored c' =>
    rw [st.params_eq, Numbering.stored_mem_paramSources st.nodup_consts] at hsrc
    obtain ⟨c, hc, rfl⟩ := List.mem_map.mp hsrc
    rw [st.sources_eq, Sources.mem_byKind_consts] at hc
    have hholds := h.holds_of_recorded hrange hc hrecorded
    exact ⟨c, hc, h.readsConstant hrange hc hrecorded ((Option.some.inj hname).trans hholds.name)⟩

/-- An operand that names a constant has the id of its record. -/
theorem Ends.exists_record_of_name {c : ConstDecl} (hc : Decl.const c ∈ decls)
    (ht : st.sources.redirect t = c.tensor) :
    ∃ p, out.plan.params[id]? = some p ∧ out.ReadsConstant decls read t c p := by
  have hstored : .stored (st.folding.reshape c) ∈ st.numbering.params := by
    rw [st.params_eq, Numbering.stored_mem_paramSources st.nodup_consts]
    refine List.mem_map_of_mem ?_
    rwa [st.sources_eq, Sources.mem_byKind_consts]
  obtain ⟨p, hp, hrecorded⟩ := exists_right_of_forall₂ h.placed.records hstored
  rw [← h.records] at hp
  obtain ⟨k, hk⟩ := List.mem_iff_getElem?.mp hp
  have hreads := h.readsConstant hrange hc hrecorded ht
  have hname := st.getElem?_allNames_of_param (h.getElem?_paramNames hk)
  rw [hreads.name, ← ht] at hname
  -- all names are different, so the record has no other id
  cases st.eq_of_getElem?_allNames hname hid
  exact ⟨p, hk, hreads⟩

theorem Ends.readsAt : out.ReadsAt decls read t id := by
  refine ⟨id, rfl, ?_, ?_⟩
  · intro p hp hinput
    exact h.readsConstant_of_record hrange hid hp hinput
  · intro c hc ht
    rw [← st.sources_eq] at ht
    exact h.exists_record_of_name hrange hid hc ht

end
end Compile

/-- The operands of a compiled model that read constants. An operator that is kept has a node, and
each of its operands that reads a constant finds the record of this constant. The record has the shape
that the squeeze of the constant leaves, if there is one, and else the declared shape, whichever of
the two names the operand has. The values stand in their order but for a real constant that some
convolution reads as its weights. -/
theorem readsConstants_of_compile {text : Bytes} {samples : List Sample} {config : Config}
    {read : FileReader} {out : Compiled}
    (h : (compile text samples config read).result = .ok out) :
    ∃ decls, parse text = .ok decls ∧
      ∀ before op after, (Sources.byKind decls).kept = before ++ op :: after →
        ∃ n, out.plan.nodes[nodeTotal before]? = some n ∧ n.name = op.name ∧
          n.op = op.body.type ∧ List.Forall₂ (out.ReadsAt decls read) op.body.sources n.inputs := by
  obtain ⟨decls, hparse, ⟨st⟩⟩ := finished_of_compile h
  obtain ⟨s, hs⟩ := Compile.exists_ends st
  refine ⟨decls, hparse, ?_⟩
  intro before op after hkept
  rw [← st.sources_eq] at hkept
  obtain ⟨n, s', hn, hat⟩ := st.exists_nodeAt (st.getElem?_steps_main hkept)
  refine ⟨n, hn, hat.name, hat.type, ?_⟩
  have hinputs := hat.reads.2
  rw [Step.main, List.forall₂_map_left_iff] at hinputs
  rw [hat.inputs, List.forall₂_map_right_iff]
  refine hinputs.imp ?_
  intro t id hid
  rw [st.folds.resolve_eq] at hid
  exact hs.readsAt (inRange_of_parse hparse) (st.getElem?_allNames_of_before hid)

/-- The constant of `addSqueezed`. -/
def squeezedConst : ConstDecl := ⟨2, ascii "k", .int64, [1, 2], .inline [ascii "1", ascii "2"]⟩

/-- A constant `k` with its squeeze `b`, and an operator that reads a given tensor. -/
def addSqueezed (source : Bytes) : Bytes :=
  ascii "Input ToTensor=x Channels=1 Height=1 Width=2
Const ToTensor=k Type=Int64 Dims=1x2 Data=1,2
Squeeze Name=s FromTensor=k ToTensor=b Axes=0
Add Name=a FromTensor1=x FromTensor2=" ++ source ++ ascii " ToTensor=y
"

def addSqueezedOp (source : Bytes) : OpDecl :=
  ⟨4, ascii "a", .plain .add [ascii "x", source] [ascii "y"]⟩

def addSqueezedDecls (source : Bytes) : List Decl :=
  [.input ⟨1, ascii "x", 1, 1, 2⟩, .const squeezedConst,
   .op ⟨3, ascii "s", .squeeze (ascii "k") (ascii "b") [0]⟩, .op (addSqueezedOp source)]

theorem addSqueezed_readsConstants :
    ∃ (out : Compiled) (n : Node) (id : Nat) (p : Param),
      (compile (addSqueezed (ascii "b")) [] { scale := 8, nvmSize := 2000 }
        fun _ => .error []).result = .ok out ∧
      parse (addSqueezed (ascii "b")) = .ok (addSqueezedDecls (ascii "b")) ∧
      (Sources.byKind (addSqueezedDecls (ascii "b"))).kept = [addSqueezedOp (ascii "b")] ∧
      out.plan.nodes[0]? = some n ∧ n.inputs[1]? = some (id : Int) ∧
      out.plan.params[id]? = some p ∧ p.dims = [2] ∧
      out.ReadsConstant (addSqueezedDecls (ascii "b")) (fun _ => .error []) (ascii "b")
        squeezedConst p := by
  have hok : (compile (addSqueezed (ascii "b")) [] { scale := 8, nvmSize := 2000 }
      fun _ => .error []).result.isOk = true := by
    decide +kernel
  have hparse : parse (addSqueezed (ascii "b")) = .ok (addSqueezedDecls (ascii "b")) := by
    decide +kernel
  have hkept : (Sources.byKind (addSqueezedDecls (ascii "b"))).kept =
      [addSqueezedOp (ascii "b")] := by
    decide +kernel
  have hname : (Sources.byKind (addSqueezedDecls (ascii "b"))).redirect (ascii "b") =
      squeezedConst.tensor := by
    decide +kernel
  obtain ⟨out, hout⟩ := exists_of_isOk hok
  obtain ⟨decls, hdecls, huses⟩ := readsConstants_of_compile hout
  cases hparse.symm.trans hdecls
  obtain ⟨n, hn, -, -, hinputs⟩ := huses [] _ _ hkept
  obtain ⟨i, rest, -, hrest, hi⟩ := List.forall₂_cons_left_iff.mp hinputs
  obtain ⟨j, rest, ⟨id, rfl, -, hconst⟩, -, rfl⟩ := List.forall₂_cons_left_iff.mp hrest
  obtain ⟨p, hp, hreads⟩ := hconst squeezedConst (by decide +kernel) hname
  have hdims := hreads.squeezed _ _ _ (List.mem_cons_of_mem _ (List.mem_cons_of_mem _
    List.mem_cons_self)) rfl
  exact ⟨out, n, id, p, hout, hparse, hkept, hn, by rw [hi]; rfl, hp, hdims, hreads⟩

/-- An operator that names the constant itself finds the squeezed shape as well. -/
theorem addSqueezed_not_declared :
    ∃ out n p,
      (compile (addSqueezed (ascii "k")) [] { scale := 8, nvmSize := 2000 }
        fun _ => .error []).result = .ok out ∧
      parse (addSqueezed (ascii "k")) = .ok (addSqueezedDecls (ascii "k")) ∧
      out.plan.nodes[0]? = some n ∧ n.name = (addSqueezedOp (ascii "k")).name ∧
      n.inputs = [0, p.id] ∧ out.plan.params[1]? = some p ∧ p.name = squeezedConst.tensor ∧
      p.dims ≠ squeezedConst.dims.map Int64.toInt := by
  have hplan : (compile (addSqueezed (ascii "k")) [] { scale := 8, nvmSize := 2000 }
      fun _ => .error []).result.map
        (fun out => (out.plan.nodes[0]?.map fun n => (n.name, n.inputs),
          out.plan.params[1]?.map fun p => (p.name, p.id, p.dims))) =
      .ok (some (ascii "a", [0, 1]), some (ascii "k", 1, [2])) := by
    decide +kernel
  have hparse : parse (addSqueezed (ascii "k")) = .ok (addSqueezedDecls (ascii "k")) := by
    decide +kernel
  obtain ⟨out, hout, hplan⟩ := map_eq_ok.mp hplan
  obtain ⟨hnode, hparam⟩ := Prod.mk.inj hplan
  obtain ⟨n, hn, hnode⟩ := Option.map_eq_some_iff.mp hnode
  obtain ⟨p, hp, hparam⟩ := Option.map_eq_some_iff.mp hparam
  simp only [Prod.mk.injEq] at hnode hparam
  obtain ⟨hname, hid, hdims⟩ := hparam
  refine ⟨out, n, p, hout, hparse, hn, hnode.1, by rw [hnode.2, hid], hp, hname, ?_⟩
  rw [hdims]
  decide

/-- Weights `k` of a convolution, and an operator that reads them too. -/
def addWeights : Bytes := ascii
  "Input ToTensor=x Channels=2 Height=1 Width=2
Const ToTensor=k Type=Float Dims=1x2x1x2 Data=1,2,3,4
Conv Name=c FromTensor=x WeightsTensor=k BiasesTensor=- ToTensor=y Strides=1,1 AutoPad=VALID
Add Name=a FromTensor1=x FromTensor2=k ToTensor=z
"

/-- The constant of `addWeights`. -/
def weightsConst : ConstDecl :=
  ⟨2, ascii "k", .float, [1, 2, 1, 2], .inline [ascii "1", ascii "2", ascii "3", ascii "4"]⟩

def addWeightsDecls : List Decl :=
  [.input ⟨1, ascii "x", 2, 1, 2⟩, .const weightsConst,
   .op ⟨3, ascii "c", .conv (ascii "x") (ascii "k") none (ascii "y") [1, 1] .valid⟩,
   .op ⟨4, ascii "a", .plain .add [ascii "x", ascii "k"] [ascii "z"]⟩]

theorem quantize_weightsConst {read : FileReader} {values : List Float}
    (h : weightsConst.DeclaresReals read values) :
    values.map (fun x => quantize (descale x 8)) = [4096, 8192, 12288, 16384] := by
  cases h with
  | file hdata => cases hdata
  | @inline texts values hdata hvalues =>
    have hread : texts.mapM (fun text => (readFloat32 text).map fun y =>
        quantize (descale (widen y) 8)) = .ok (values.map fun x => quantize (descale x 8)) := by
      rw [mapM_eq_ok, List.forall₂_map_right_iff]
      refine hvalues.imp ?_
      rintro text x ⟨y, hy, rfl⟩
      rw [hy]
      rfl
    cases hdata
    exact Except.ok.inj (hread.symm.trans (by decide +kernel))

/-- In the order of the declaration the words would rise. -/
theorem wordsOf_weightsConst {read : FileReader} {dims : List Int} {type : ParamType} {bytes : Bytes}
    (h : weightsConst.StoredAs read 8 False dims type bytes) :
    (Wire.wordsOf 2 bytes).map (fun w : Nat => (w : Int).bmod (2 ^ 16)) =
      [4096, 8192, 12288, 16384] := by
  cases h with
  | integers htype => cases htype
  | reals htype hvalues horder hbytes hwords =>
    obtain ⟨hweights, -⟩ | ⟨-, rfl⟩ := horder
    · exact hweights.elim
    · rw [hwords, quantize_weightsConst hvalues]

/-- An operator that reads the weights of a convolution does not find them in the order of their
declaration. -/
theorem addWeights_not_rows :
    ∃ out n p,
      (compile addWeights [] { scale := 8, nvmSize := 2000 } fun _ => .error []).result = .ok out ∧
      parse addWeights = .ok addWeightsDecls ∧
      out.plan.nodes[2]? = some n ∧ n.name = ascii "a" ∧ n.inputs = [0, p.id] ∧
      out.plan.params[1]? = some p ∧ p.name = weightsConst.tensor ∧
      ¬ out.KeepsRows (fun _ => .error []) weightsConst p := by
  have hrun : (compile addWeights [] { scale := 8, nvmSize := 2000 } fun _ => .error []).result.map
      (fun out => do
        let n ← out.plan.nodes[2]?
        let p ← out.plan.params[1]?
        pure ([n.name, p.name], [n.inputs, [p.id, p.slot, p.offset, p.bytes],
          out.image.offsets.take 2,
          (Wire.wordsOf 2 (out.image.part 0 8)).map fun w : Nat => (w : Int).bmod (2 ^ 16)])) =
      .ok (some ([ascii "a", ascii "k"], [[0, 1], [1, 0xf1, 0, 8], [0, 0],
        [4096, 12288, 8192, 16384]])) := by
    decide +kernel
  have hparse : parse addWeights = .ok addWeightsDecls := by decide +kernel
  obtain ⟨out, hout, hrun⟩ := map_eq_ok.mp hrun
  obtain ⟨n, hn, hrun⟩ := Option.bind_eq_some_iff.mp hrun
  obtain ⟨p, hp, hrun⟩ := Option.bind_eq_some_iff.mp hrun
  obtain ⟨hnames, hrun⟩ := Prod.mk.inj (Option.some.inj hrun)
  obtain ⟨hinputs, hrun⟩ := List.cons.inj hrun
  obtain ⟨hrecord, hrun⟩ := List.cons.inj hrun
  obtain ⟨hstarts, hwords⟩ := List.cons.inj hrun
  simp only [List.cons.injEq, and_true] at hnames hrecord hwords
  obtain ⟨hid, hslot, hoffset, hbytes⟩ := hrecord
  refine ⟨out, n, p, hout, hparse, hn, hnames.1, by rw [hinputs, hid], hp, hnames.2, ?_⟩
  intro hrows
  have hstart : out.image.offsets[Stream.all.idxOf (Stream.ofSlot p.slot)]? =
      some ((0 : Nat) : Int) := by
    rw [hslot]
    show out.image.offsets[1]? = _
    rw [← List.getElem?_take_of_lt (by decide : 1 < 2), hstarts]
    rfl
  have hstored := hrows.stored hstart hoffset hbytes
  obtain ⟨decls, -, ⟨st⟩⟩ := finished_of_compile hout
  rw [st.hplan] at hstored
  exact absurd (hwords.symm.trans (wordsOf_weightsConst hstored)) (by decide)

end NetImage
