import NetImage.Build.Parameters
import NetImage.Proofs.Build.Folding
import NetImage.Proofs.Variant.Agreement

/-!
# NetImage.Proofs.Variant.Declarations

Graphs that say the same in other words. A variant of a graph has the same declarations of each kind
in the same order, but it may be written on other lines, use other names, and have values of its
constants in files. The relation `N` says which names stand for each other; it is one to one.

* `SameValues`: two ways to give the values of a constant.
* `Sources.Like`: the declarations of a graph and those of a variant.
* `Sources.agree_ofDecls`, `Folding.agree_ofSources`: sorting and folding agree on variants.
-/

namespace NetImage

/-! ## Variants -/

/-- Two ways to give the values of a constant of some type: the same data, or number texts and a file
with their words. -/
inductive SameValues (read : FileReader) : ElementType → ConstData → ConstData → Prop
  | same (type : ElementType) (data : ConstData) : SameValues read type data data
  | reals {texts : List Bytes} {values : List Float32} {path : Bytes} {bytes : ByteArray}
      (hvalues : List.Forall₂ (fun text x => readFloat32 text = .ok x) texts values)
      (hread : read path = .ok bytes)
      (hbytes : bytes.data.toList = values.flatMap fun x => Wire.u32 x.toBits.toNat) :
      SameValues read .float (.inline texts) (.file path)
  | integers {texts : List Bytes} {values : List Int64} {path : Bytes} {bytes : ByteArray}
      (hvalues : List.Forall₂ (fun text n => readInt64 text = .ok n) texts values)
      (hread : read path = .ok bytes)
      (hbytes : bytes.data.toList = values.flatMap fun n => Wire.i64 n.toInt) :
      SameValues read .int64 (.inline texts) (.file path)

section Like

variable (N : Bytes → Bytes → Prop) (read : FileReader)

/-- An input under another name and on another line. -/
structure InputDecl.Like (i i' : InputDecl) : Prop where
  tensor : N i.tensor i'.tensor
  channels : i.channels = i'.channels
  height : i.height = i'.height
  width : i.width = i'.width

/-- A constant under another name and on another line, with its values perhaps in a file. -/
structure ConstDecl.Like (c c' : ConstDecl) : Prop where
  tensor : N c.tensor c'.tensor
  type : c.type = c'.type
  dims : c.dims = c'.dims
  values : SameValues read c.type c.data c'.data

/-- An operator with other names for its tensors. The mask of a dropout is never looked at. -/
inductive OpBody.Like : OpBody → OpBody → Prop
  | plain (type : OpType) {sources sources' targets targets' : List Bytes}
      (hsources : List.Forall₂ N sources sources') (htargets : List.Forall₂ N targets targets') :
      Like (.plain type sources targets) (.plain type sources' targets')
  | concat {sources sources' : List Bytes} {target target' : Bytes} (axis : Int64)
      (hsources : List.Forall₂ N sources sources') (htarget : N target target') :
      Like (.concat sources target axis) (.concat sources' target' axis)
  | conv {source source' weights weights' target target' : Bytes} {bias bias' : Option Bytes}
      (strides : List Int64) (pad : AutoPad) (hsource : N source source')
      (hweights : N weights weights') (hbias : Option.Rel N bias bias') (htarget : N target target') :
      Like (.conv source weights bias target strides pad)
        (.conv source' weights' bias' target' strides pad)
  | dropout {source source' target target' : Bytes} (mask mask' : Option Bytes)
      (hsource : N source source') (htarget : N target target') :
      Like (.dropout source target mask) (.dropout source' target' mask')
  | maxPool {source source' target target' : Bytes} (kernel strides : List Int64) (pad : AutoPad)
      (hsource : N source source') (htarget : N target target') :
      Like (.maxPool source target kernel strides pad) (.maxPool source' target' kernel strides pad)
  | squeeze {source source' target target' : Bytes} (axes : List Int64)
      (hsource : N source source') (htarget : N target target') :
      Like (.squeeze source target axes) (.squeeze source' target' axes)

structure OpDecl.Like (op op' : OpDecl) : Prop where
  name : op.name = op'.name
  body : OpBody.Like N op.body op'.body

/-- A declaration of a variant. -/
inductive Decl.Like : Decl → Decl → Prop
  | input {i i' : InputDecl} (h : i.Like N i') : Like (.input i) (.input i')
  | const {c c' : ConstDecl} (h : c.Like N read c') : Like (.const c) (.const c')
  | op {op op' : OpDecl} (h : op.Like N op') : Like (.op op) (.op op')

/-- The declarations of a variant, kind by kind. -/
structure Sources.Like (g g' : Sources) : Prop where
  inputs : List.Forall₂ (InputDecl.Like N) g.inputs g'.inputs
  consts : List.Forall₂ (ConstDecl.Like N read) g.consts g'.consts
  ops : List.Forall₂ (OpDecl.Like N) g.ops g'.ops

end Like

variable {N : Bytes → Bytes → Prop} {read : FileReader}

/-- Every operator is a variant of itself. -/
theorem OpBody.Like.refl (b : OpBody) : b.Like Eq b := by
  have hnames : ∀ names : List Bytes, List.Forall₂ Eq names names :=
    fun _ => List.forall₂_same.mpr fun _ _ => rfl
  cases b with
  | plain type sources targets => exact .plain type (hnames sources) (hnames targets)
  | concat sources target axis => exact .concat axis (hnames sources) rfl
  | conv source weights bias target strides pad =>
    refine .conv strides pad rfl rfl ?_ rfl
    cases bias with
    | some b => exact .some rfl
    | none => exact .none
  | dropout source target mask => exact .dropout mask mask rfl rfl
  | maxPool source target kernel strides pad => exact .maxPool kernel strides pad rfl rfl
  | squeeze source target axes => exact .squeeze axes rfl rfl

theorem Decl.Like.refl (read : FileReader) (d : Decl) : d.Like Eq read d := by
  cases d with
  | input i => exact .input ⟨rfl, rfl, rfl, rfl⟩
  | const c => exact .const ⟨rfl, rfl, rfl, .same _ _⟩
  | op op => exact .op ⟨rfl, .refl _⟩

theorem InputDecl.forall₂_tensor {is is' : List InputDecl} (h : List.Forall₂ (Like N) is is') :
    List.Forall₂ N (is.map tensor) (is'.map tensor) :=
  List.rel_map (fun _ _ hi => hi.tensor) h

theorem ConstDecl.forall₂_tensor {cs cs' : List ConstDecl}
    (h : List.Forall₂ (Like N read) cs cs') :
    List.Forall₂ N (cs.map tensor) (cs'.map tensor) :=
  List.rel_map (fun _ _ hc => hc.tensor) h

/-! ## Sorting -/

namespace Sources

variable {g g' : Sources}

theorem like_byKind {decls decls' : List Decl} (h : List.Forall₂ (Decl.Like N read) decls decls') :
    (byKind decls).Like N read (byKind decls') := by
  refine ⟨List.rel_filterMap ?_ h, List.rel_filterMap ?_ h, List.rel_filterMap ?_ h⟩
  · intro d d' hd
    cases hd with
    | input hi => exact .some hi
    | const _ | op _ => exact .none
  · intro d d' hd
    cases hd with
    | const hc => exact .some hc
    | input _ | op _ => exact .none
  · intro d d' hd
    cases hd with
    | op hop => exact .some hop
    | input _ | const _ => exact .none

theorem Like.named_iff (hN : Relator.BiUnique N) (h : g.Like N read g') : g.Named ↔ g'.Named := by
  have hinputs := List.rel_nodup hN (InputDecl.forall₂_tensor h.inputs)
  have hconsts := List.rel_nodup hN (ConstDecl.forall₂_tensor h.consts)
  exact ⟨fun hg => ⟨hinputs.mp hg.inputs, hconsts.mp hg.consts⟩,
    fun hg => ⟨hinputs.mpr hg.inputs, hconsts.mpr hg.consts⟩⟩

theorem Like.ops_eq_nil_iff (h : g.Like N read g') : g.ops = [] ↔ g'.ops = [] := by
  rw [← List.length_eq_zero_iff, ← List.length_eq_zero_iff, h.ops.length_eq]

theorem agree_ofDecls (hN : Relator.BiUnique N) {decls decls' : List Decl}
    (h : (byKind decls).Like N read (byKind decls')) :
    Agree (Like N read) (ofDecls decls) (ofDecls decls') := by
  -- sorting only fails for a name that is declared twice, or if there are no operators
  refine .of_ok ?_ ?_
  · intro g hg
    obtain ⟨rfl, hnamed, hops⟩ := ofDecls_eq_ok_iff.mp hg
    exact ⟨_, ofDecls_eq_ok_iff.mpr ⟨rfl, (h.named_iff hN).mp hnamed, mt h.ops_eq_nil_iff.mpr hops⟩, h⟩
  · intro g' hg'
    obtain ⟨rfl, hnamed, hops⟩ := ofDecls_eq_ok_iff.mp hg'
    exact ⟨_, ofDecls_eq_ok_iff.mpr ⟨rfl, (h.named_iff hN).mpr hnamed, mt h.ops_eq_nil_iff.mp hops⟩⟩

end Sources

/-! ## Folding -/

theorem ConstDecl.tablesAlike (hN : Relator.BiUnique N) {cs cs' : List ConstDecl}
    (h : List.Forall₂ (Like N read) cs cs') :
    TablesAlike N (Like N read) (cs.foldl (fun m c => m.insert c.tensor c) ∅)
      (cs'.foldl (fun m c => m.insert c.tensor c) ∅) := by
  refine List.rel_foldl ?_ .empty h
  intro m m' hm c c' hc
  exact hm.insert hN hc.tensor hc

namespace Folding

/-- What folding has found in a graph and in a variant of it. -/
structure Like (N : Bytes → Bytes → Prop) (read : FileReader) (f f' : Folding) : Prop where
  consts : TablesAlike N (ConstDecl.Like N read) f.consts f'.consts
  squeezed : TablesAlike N (fun x y => x.2 = y.2) f.squeezed f'.squeezed
  renamed : TablesAlike N N f.renamed f'.renamed

variable {f f' : Folding}

theorem like_start (hN : Relator.BiUnique N) {cs cs' : List ConstDecl}
    (h : List.Forall₂ (ConstDecl.Like N read) cs cs') : Like N read (start cs) (start cs') :=
  ⟨ConstDecl.tablesAlike hN h, .empty, .empty⟩

theorem agree_step (hN : Relator.BiUnique N) (h : Like N read f f') {op op' : OpDecl}
    (hop : op.Like N op') : Agree (Like N read) (step f op).result (step f' op').result := by
  obtain ⟨line, name, body⟩ := op
  obtain ⟨line', name', body'⟩ := op'
  obtain ⟨-, hbody⟩ := hop
  simp only [step]
  -- only a squeeze can change anything
  cases hbody with
  | plain | concat | conv | dropout | maxPool => exact .ok h
  | squeeze axes hsource htarget =>
    obtain ⟨hc, hc'⟩ | ⟨c, c', hc, hc', hlike⟩ := h.consts.lookup hsource
    · simp only [hc, hc']
      exact .ok h
    · obtain ⟨hs, hs'⟩ | ⟨⟨l, dims⟩, ⟨l', dims'⟩, hs, hs', -⟩ := h.squeezed.lookup hlike.tensor
      · simp only [hc, hc', hs, hs', ← hlike.dims]
        cases squeeze c.dims axes with
        | error e => exact .error _ _
        | ok dims =>
          exact .ok ⟨h.consts, h.squeezed.insert hN hlike.tensor rfl,
            h.renamed.insert hN htarget hlike.tensor⟩
      · simp only [hc, hc', hs, hs']
        exact .error _ _

theorem agree_ofSources (hN : Relator.BiUnique N) {g g' : Sources} (h : g.Like N read g') :
    Agree (Like N read) (ofSources g).result (ofSources g').result := by
  rw [ofSources, ofSources, Traced.result_fold, Traced.result_fold]
  exact agree_foldlM h.ops (fun _ _ _ _ hf hop => agree_step hN hf hop) (like_start hN h.consts)

theorem Like.resolve (h : f.Like N read f') {t t' : Bytes} (ht : N t t') :
    N (f.resolve t) (f'.resolve t') := by
  rw [Folding.resolve, Folding.resolve, Std.TreeMap.getD_eq_getD_getElem?,
    Std.TreeMap.getD_eq_getD_getElem?]
  obtain ⟨hr, hr'⟩ | ⟨c, c', hr, hr', hc⟩ := h.renamed.lookup ht
  · rw [hr, hr']
    exact ht
  · rw [hr, hr']
    exact hc

theorem Like.isFolded_eq (h : f.Like N read f') {op op' : OpDecl} (hop : op.Like N op') :
    f.isFolded op = f'.isFolded op' := by
  obtain ⟨line, name, body⟩ := op
  obtain ⟨line', name', body'⟩ := op'
  obtain ⟨-, hbody⟩ := hop
  cases hbody with
  | plain | concat | conv | dropout | maxPool => rfl
  | squeeze axes hsource htarget => exact h.consts.contains_eq hsource

theorem Like.reshape (h : f.Like N read f') {c c' : ConstDecl} (hc : c.Like N read c') :
    (f.reshape c).Like N read (f'.reshape c') := by
  rw [Folding.reshape, Folding.reshape]
  obtain ⟨hs, hs'⟩ | ⟨⟨l, dims⟩, ⟨l', dims'⟩, hs, hs', hdims⟩ := h.squeezed.lookup hc.tensor
  · rw [hs, hs']
    exact hc
  · rw [hs, hs']
    exact ⟨hc.tensor, hc.type, hdims, hc.values⟩

end Folding
end NetImage
