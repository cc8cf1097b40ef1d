import NetImage.Proofs.Build.Encoding
import NetImage.Proofs.Example.Weights

/-!
# NetImage.Proofs.Example.Calls

What is written with the operations of a sketch is read again.

* `Sketch.Call`: an operation with its arguments, and `Sketch.Call.Allowed`: those that the language
  allows.
* `Sketch.Call.Declares`: the declarations that an operation stands for.
* `Sketch.adds_run`: what one operation adds to a sketch, and `Sketch.adds_calls`: any sequence.
* `parse_calls`: the text is accepted, with one declaration for each line.
-/

namespace NetImage
namespace Sketch

/-- An operation with its arguments. -/
inductive Call where
  | input (tensor : Bytes) (c h w : Int64)
  | weights (stem : Bytes) (bound : Float) (dims : List Int64)
  | shape (stem : Bytes) (values : List Int64)
  | conv (source : Bytes) (c k r stride : Int64) (pad : AutoPad)
  | maxPool (source : Bytes) (r stride : Int64)
  | reshape (source form : Bytes)
  | concat (axis : Int64) (sources : List Bytes)
  | unary (head stem source : Bytes) (back : List Bytes)
  | binary (head stem source₁ source₂ : Bytes)

namespace Call

def run : Call → SketchM Bytes
  | .input tensor c h w => Sketch.input tensor c h w
  | .weights stem bound dims => Sketch.weights stem bound dims
  | .shape stem values => Sketch.shape stem values
  | .conv source c k r stride pad => Sketch.conv source c k r stride pad
  | .maxPool source r stride => Sketch.maxPool source r stride
  | .reshape source form => Sketch.reshape source form
  | .concat axis sources => Sketch.concat axis sources
  | .unary head stem source back => Sketch.unary head stem source back
  | .binary head stem source₁ source₂ => Sketch.binary head stem source₁ source₂

/-- One to six sizes whose product is a signed word of 64 bits. -/
structure IsShape (dims : List Int64) : Prop where
  pos : 0 < dims.length
  le : dims.length ≤ 6
  sizes : ∀ d ∈ dims, IsSize d
  product : (dims.map Int64.toInt).prod < 2 ^ 63

/-- The heads of operators with one source, the fields behind the output, and the operator from its
source and output. -/
inductive UnaryFits : Bytes → List Bytes → (Bytes → Bytes → OpBody) → Prop
  | convMerge : UnaryFits (ascii "ConvMerge") [] fun s t => .plain .convMerge [s] [t]
  | globalAveragePool :
      UnaryFits (ascii "GlobalAveragePool") [] fun s t => .plain .globalAveragePool [s] [t]
  | relu : UnaryFits (ascii "Relu") [] fun s t => .plain .relu [s] [t]
  | softmax : UnaryFits (ascii "Softmax") [] fun s t => .plain .softmax [s] [t]
  | transpose : UnaryFits (ascii "Transpose") [] fun s t => .plain .transpose [s] [t]
  | dropout {text : Bytes} {mask : Option Bytes} (hmask : FieldKind.optIdent.read text = .ok mask) :
      UnaryFits (ascii "Dropout") [field "MaskTensor" text] fun s t => .dropout s t mask
  | squeeze {text : Bytes} {axes : List Int64} (haxes : FieldKind.intList.read text = .ok axes) :
      UnaryFits (ascii "Squeeze") [field "Axes" text] fun s t => .squeeze s t axes
  | maxPool {text text' text'' : Bytes} {kernel strides : List Int64} {pad : AutoPad}
      (hkernel : FieldKind.intList.read text = .ok kernel)
      (hstrides : FieldKind.intList.read text' = .ok strides)
      (hpad : FieldKind.autoPad.read text'' = .ok pad) :
      UnaryFits (ascii "MaxPool")
        [field "KernelShape" text, field "Strides" text', field "AutoPad" text'']
        fun s t => .maxPool s t kernel strides pad

/-- The heads of operators with two sources that have the fields of a sum. -/
inductive BinaryFits : Bytes → OpType → Prop
  | add : BinaryFits (ascii "Add") .add
  | matMul : BinaryFits (ascii "MatMul") .matMul

/-- The arguments that the language allows. -/
def Allowed : Call → Prop
  | .input tensor c h w => IsIdent tensor ∧ IsSize c ∧ IsSize h ∧ IsSize w
  | .weights stem bound dims => IsIdent stem ∧ Finite32 bound ∧ IsShape dims
  | .shape stem values => IsIdent stem ∧ 1 ≤ values.length ∧ values.length ≤ 65535
  | .conv source c k r _ _ => IsIdent source ∧ IsShape [k, c, r, r]
  | .maxPool source _ _ => IsIdent source
  | .reshape source form => IsIdent source ∧ IsIdent form
  | .concat _ sources => sources ≠ [] ∧ ∀ s ∈ sources, IsIdent s
  | .unary head stem source back =>
    IsIdent stem ∧ IsIdent source ∧ ∃ body, UnaryFits head back body
  | .binary head stem source₁ source₂ =>
    IsIdent stem ∧ IsIdent source₁ ∧ IsIdent source₂ ∧ ∃ type, BinaryFits head type

/-- The stems of the names that are given, in order. -/
def stems : Call → List Bytes
  | .input .. => []
  | .weights stem _ _ => [stem]
  | .shape stem _ => [stem]
  | .conv .. => [ascii "w", ascii "b", ascii "conv"]
  | .maxPool .. => [ascii "pool"]
  | .reshape .. => [ascii "reshape"]
  | .concat .. => [ascii "concat"]
  | .unary _ stem _ _ => [stem]
  | .binary _ stem _ _ => [stem]

end Call

/-- The next name of a stem when names of these stems were given before. -/
def nameAfter (named : List Bytes) (stem : Bytes) : Bytes :=
  stem ++ decimalNat (named.count stem + 1)

/-- The declarations that an operation stands for, the first on the given line, when names of these
stems were given before. The texts of weights are not fixed, but their number is. -/
inductive Call.Declares (named : List Bytes) (line : Nat) : Call → List Decl → Prop
  | input {tensor : Bytes} {c h w : Int64} :
      Declares named line (.input tensor c h w) [.input ⟨line, tensor, c, h, w⟩]
  | weights {stem : Bytes} {bound : Float} {dims : List Int64} {texts : List Bytes}
      (htexts : (texts.length : Int) = (dims.map Int64.toInt).prod) :
      Declares named line (.weights stem bound dims)
        [.const ⟨line, nameAfter named stem, .float, dims, .inline texts⟩]
  | shape {stem : Bytes} {values : List Int64} :
      Declares named line (.shape stem values)
        [.const ⟨line, nameAfter named stem, .int64, [Int64.ofNat values.length],
          .inline (values.map fun n => decimal n.toInt)⟩]
  | conv {source : Bytes} {c k r stride : Int64} {pad : AutoPad} {texts texts' : List Bytes}
      (htexts : (texts.length : Int) = k.toInt * c.toInt * r.toInt * r.toInt)
      (htexts' : (texts'.length : Int) = k.toInt) :
      Declares named line (.conv source c k r stride pad)
        [.const ⟨line, nameAfter named (ascii "w"), .float, [k, c, r, r], .inline texts⟩,
         .const ⟨line + 1, nameAfter named (ascii "b"), .float, [k], .inline texts'⟩,
         .op ⟨line + 2, nameAfter named (ascii "conv"),
          .conv source (nameAfter named (ascii "w")) (some (nameAfter named (ascii "b")))
            (nameAfter named (ascii "conv")) [stride, stride] pad⟩]
  | maxPool {source : Bytes} {r stride : Int64} :
      Declares named line (.maxPool source r stride)
        [.op ⟨line, nameAfter named (ascii "pool"),
          .maxPool source (nameAfter named (ascii "pool")) [r, r] [stride, stride] .notSet⟩]
  | reshape {source form : Bytes} :
      Declares named line (.reshape source form)
        [.op ⟨line, nameAfter named (ascii "reshape"),
          .plain .reshape [source, form] [nameAfter named (ascii "reshape")]⟩]
  | concat {axis : Int64} {sources : List Bytes} :
      Declares named line (.concat axis sources)
        [.op ⟨line, nameAfter named (ascii "concat"),
          .concat sources (nameAfter named (ascii "concat")) axis⟩]
  | unary {head stem source : Bytes} {back : List Bytes} {body : Bytes → Bytes → OpBody}
      (hfits : UnaryFits head back body) :
      Declares named line (.unary head stem source back)
        [.op ⟨line, nameAfter named stem, body source (nameAfter named stem)⟩]
  | binary {head stem source₁ source₂ : Bytes} {type : OpType} (hfits : BinaryFits head type) :
      Declares named line (.binary head stem source₁ source₂)
        [.op ⟨line, nameAfter named stem,
          .plain type [source₁, source₂] [nameAfter named stem]⟩]

/-- The declarations of a sequence of operations. -/
inductive Declared : List Bytes → Nat → List Call → List Decl → Prop
  | nil {named : List Bytes} {line : Nat} : Declared named line [] []
  | cons {named : List Bytes} {line : Nat} {call : Call} {calls : List Call} {ds ds' : List Decl}
      (hfirst : call.Declares named line ds)
      (hrest : Declared (named ++ call.stems) (line + ds.length) calls ds') :
      Declared named line (call :: calls) (ds ++ ds')

/-! ## One operation -/

/-- The counters count the names that were given. -/
def Counts (s : Sketch) (named : List Bytes) : Prop :=
  ∀ stem, s.counters.getD stem 0 = named.count stem

/-- What an operation adds to a sketch: lines with their declarations, and names of these stems. -/
structure Adds (s s' : Sketch) (named stems : List Bytes) (line : Nat) (ds : List Decl) : Prop where
  text : ∃ lines, s'.text.data.toList = s.text.data.toList ++ lines ∧ Says line lines ds
  counts : s'.Counts (named ++ stems)

theorem adds_nothing {s : Sketch} {named : List Bytes} (h : s.Counts named) (line : Nat) :
    Adds s s named [] line [] :=
  ⟨⟨[], by simp, says_nil line⟩, by rwa [List.append_nil]⟩

theorem Adds.trans {s s' s'' : Sketch} {named stems stems' : List Bytes} {line : Nat}
    {ds ds' : List Decl} (h : Adds s s' named stems line ds)
    (h' : Adds s' s'' (named ++ stems) stems' (line + ds.length) ds') :
    Adds s s'' named (stems ++ stems') line (ds ++ ds') := by
  obtain ⟨⟨lines, htext, hsays⟩, -⟩ := h
  obtain ⟨⟨lines', htext', hsays'⟩, hcounts⟩ := h'
  refine ⟨⟨lines ++ lines', ?_, hsays.append hsays'⟩, by rwa [← List.append_assoc]⟩
  rw [htext', htext, List.append_assoc]

theorem bind_apply {α β : Type} (m : SketchM α) (next : α → SketchM β) (s : Sketch) :
    (m >>= next) s = next (m s).1 (m s).2 :=
  rfl

theorem fst_name {s : Sketch} {named : List Bytes} (h : s.Counts named) (stem : Bytes) :
    (name stem s).1 = nameAfter named stem := by
  rw [nameAfter, ← h stem]
  rfl

theorem counts_name {s : Sketch} {named : List Bytes} (h : s.Counts named) (stem : Bytes) :
    (name stem s).2.Counts (named ++ [stem]) := by
  intro stem'
  show (s.counters.insert stem (s.counters.getD stem 0 + 1)).getD stem' 0 = _
  rw [Std.TreeMap.getD_insert, h stem, List.count_append, List.count_singleton]
  by_cases heq : stem = stem'
  · simp [heq]
  · simp [heq, h stem']

theorem toList_words (words : List Bytes) (text : ByteArray) :
    (words.foldl (fun text f => extend (text.push 0x20) f) text).data.toList =
      text.data.toList ++ words.flatMap (0x20 :: ·) := by
  induction words generalizing text with
  | nil => simp
  | cons w words ih => simp [ih, ByteArray.data_push]

theorem toList_line (head : Bytes) (words : List Bytes) (s : Sketch) :
    (line head words s).2.text.data.toList = s.text.data.toList ++ lineText head words := by
  show ((words.foldl _ (extend s.text head)).push 0x0a).data.toList = _
  simp [toList_words, ByteArray.data_push, lineText]

section Lines

variable {s : Sketch} {named : List Bytes} (hs : s.Counts named)
include hs

theorem adds_line {head : Head} {n : Nat} {d : Decl} {texts : List Bytes}
    (h : Takes d head.fields (head.build n) texts) :
    Adds s (line head.name (fieldWords head.fields texts) s).2 named [] n [d] :=
  ⟨⟨_, toList_line _ _ s, says_line h⟩, by rwa [List.append_nil]⟩

/-- A line with a new name in it. -/
theorem adds_named (stem : Bytes) (head : Head) (words : Bytes → List Bytes) {n : Nat} {d : Decl}
    {texts : List Bytes} (h : Takes d head.fields (head.build n) texts)
    (hwords : words (nameAfter named stem) = fieldWords head.fields texts) :
    Adds s (line head.name (words (name stem s).1) (name stem s).2).2 named [stem] n [d] := by
  have hname : Adds s (name stem s).2 named [stem] n [] :=
    ⟨⟨[], (List.append_nil _).symm, says_nil n⟩, counts_name hs stem⟩
  rw [fst_name hs, hwords]
  have := hname.trans (adds_line (counts_name hs stem) (n := n) h)
  rwa [List.append_nil, List.nil_append] at this

theorem adds_const {stem : Bytes} (hstem : IsIdent stem) (type : ElementType) (n : Nat)
    {dims data : Bytes} {ns : List Int64} {ts : List Bytes} (hdims : FieldKind.dims.Spells dims ns)
    (hdata : FieldKind.data.Spells data (.inline ts))
    (hcount : (ts.length : Int) = (elementCount ns).toInt) :
    Adds s (const stem type dims data s).2 named [stem] n
      [.const ⟨n, nameAfter named stem, type, ns, .inline ts⟩] := by
  have hname := hstem.append_decimalNat (named.count stem + 1)
  refine adds_named hs stem .const (fun t => [field "ToTensor" t, field "Type" type.name,
    field "Dims" dims, field "Data" data]) (takes_cons (FieldKind.spells_ident hname)
      (takes_cons (FieldKind.spells_elementType type)
        (takes_cons hdims (takes_cons hdata ⟨rfl, ?_⟩)))) rfl
  show Head.const_ n _ type ns (.inline ts) = _
  simp only [Head.const_, hcount, if_true]
  rfl

theorem adds_op (stem : Bytes) (head : Head) {n : Nat} {front back : List Bytes} {d : Decl}
    {texts : List Bytes} (h : Takes d head.fields (head.build n) texts)
    (hwords : [field "Name" (nameAfter named stem)] ++ front ++
      [field "ToTensor" (nameAfter named stem)] ++ back = fieldWords head.fields texts) :
    Adds s (op head.name stem front back s).2 named [stem] n [d] :=
  adds_named hs stem head
    (fun t => [field "Name" t] ++ front ++ [field "ToTensor" t] ++ back) h hwords

end Lines

/-! ## The operations -/

theorem spells_ints (n : Int64) (ns : List Int64) :
    FieldKind.intList.Spells (joined "," (n :: ns)) (n :: ns) :=
  (FieldKind.canonical_intList (by simp)).spells

theorem isIdent_nameAfter {stem : Bytes} (h : IsIdent stem) (named : List Bytes) :
    IsIdent (nameAfter named stem) :=
  h.append_decimalNat _

theorem nameAfter_append {named : List Bytes} {stem stem' : Bytes} (h : stem ≠ stem') :
    nameAfter (named ++ [stem]) stem' = nameAfter named stem' := by
  rw [nameAfter, nameAfter, List.count_append, List.count_singleton]
  simp [h]

/-- The fields that all operators with one source begin with. -/
theorem takes_source {t source : Bytes} (ht : IsIdent t) (hsource : IsIdent source) {d : Decl}
    {fields : List Field} {next : Bytes → Bytes → Bytes → FromFields (Except CountError Decl) fields}
    {texts : List Bytes} {sample : String} (h : Takes d fields (next t source t) texts) :
    Takes d (.opName sample :: .source "" :: .target :: fields) next (t :: source :: t :: texts) :=
  takes_cons (FieldKind.spells_name ht) (takes_cons (FieldKind.spells_ident hsource)
    (takes_cons (FieldKind.spells_ident ht) h))

theorem one_le_area {c r : Int64} (hc : IsSize c) (hr : IsSize r) : 1 ≤ (c * r * r).toInt := by
  obtain ⟨hc₁, hc₂⟩ := hc
  obtain ⟨hr₁, hr₂⟩ := hr
  have hlow : 1 ≤ c.toInt * r.toInt := by nlinarith
  have hhigh : c.toInt * r.toInt ≤ 65535 * 65535 := by nlinarith
  have harea : 1 ≤ c.toInt * r.toInt * r.toInt := by nlinarith
  have harea' : c.toInt * r.toInt * r.toInt ≤ 65535 * 65535 * 65535 := by nlinarith
  rw [Int64.toInt_mul, Int64.toInt_mul, Int.bmod_eq_of_le (n := c.toInt * r.toInt) (by omega) (by omega),
    Int.bmod_eq_of_le (by omega) (by omega)]
  exact harea

namespace Call

theorem IsShape.toInt_elementCount {dims : List Int64} (h : IsShape dims) :
    (elementCount dims).toInt = (dims.map Int64.toInt).prod :=
  (toInt_elementCount_eq_iff h.sizes).mpr h.product

theorem IsShape.spells {dims : List Int64} (h : IsShape dims) :
    FieldKind.dims.Spells (joined "x" dims) dims :=
  (FieldKind.canonical_dims (List.length_pos_iff.mp h.pos) h.le h.sizes).spells

end Call

section Operations

variable {s : Sketch} {named : List Bytes} (hs : s.Counts named)
include hs

theorem adds_weights {stem : Bytes} {bound : Float} {dims : List Int64} (hstem : IsIdent stem)
    (hbound : Finite32 bound) (hdims : Call.IsShape dims) (n : Nat) :
    ∃ ts : List Bytes, (ts.length : Int) = (dims.map Int64.toInt).prod ∧
      (weights stem bound dims s).1 = nameAfter named stem ∧
      Adds s (weights stem bound dims s).2 named [stem] n
        [.const ⟨n, nameAfter named stem, .float, dims, .inline ts⟩] := by
  obtain ⟨ts, hts⟩ : ∃ ts, ts =
      (draw bound (elementCount dims).toInt.toNat [] s.generator).1 := ⟨_, rfl⟩
  obtain ⟨g, hg⟩ : ∃ g, g = (draw bound (elementCount dims).toInt.toNat [] s.generator).2 := ⟨_, rfl⟩
  have hrun : weights stem bound dims s =
      const stem .float (joined "x" dims) (Bytes.join (ascii ",") ts) { s with generator := g } := by
    rw [hts, hg]
    rfl
  obtain ⟨hlength, hnumbers⟩ := draw_spec hbound (elementCount dims).toInt.toNat
    (List.forall_mem_nil _) s.generator
  rw [← hts] at hlength hnumbers
  have hprod := (prod_bounds hdims.sizes).1
  have hcount : (ts.length : Int) = (elementCount dims).toInt := by
    rw [hlength, hdims.toInt_elementCount, List.length_nil]
    omega
  have hne : ts ≠ [] := by
    rintro rfl
    rw [hdims.toInt_elementCount, List.length_nil] at hcount
    omega
  rw [hrun]
  refine ⟨ts, hcount.trans hdims.toInt_elementCount, fst_name (s := { s with generator := g }) hs stem,
    ?_⟩
  have hadds := adds_const (s := { s with generator := g }) hs hstem .float n hdims.spells
    (FieldKind.spells_data hne hnumbers) hcount
  exact ⟨hadds.text, hadds.counts⟩

theorem adds_input {tensor : Bytes} {c h w : Int64} (htensor : IsIdent tensor) (hc : IsSize c)
    (hh : IsSize h) (hw : IsSize w) (n : Nat) :
    Adds s (input tensor c h w s).2 named [] n [.input ⟨n, tensor, c, h, w⟩] := by
  have htakes : Takes (.input ⟨n, tensor, c, h, w⟩) Head.input.fields (Head.input.build n)
      [tensor, decimal c.toInt, decimal h.toInt, decimal w.toInt] :=
    takes_cons (FieldKind.spells_ident htensor) (takes_cons (FieldKind.spells_size hc)
      (takes_cons (FieldKind.spells_size hh) (takes_cons (FieldKind.spells_size hw) (takes_nil _))))
  have hadds := adds_line hs htakes
  exact hadds

theorem adds_shape {stem : Bytes} {values : List Int64} (hstem : IsIdent stem)
    (hpos : 1 ≤ values.length) (hle : values.length ≤ 65535) (n : Nat) :
    Adds s (shape stem values s).2 named [stem] n
      [.const ⟨n, nameAfter named stem, .int64, [Int64.ofNat values.length],
        .inline (values.map fun n => decimal n.toInt)⟩] := by
  have hlength : (Int64.ofNat values.length).toInt = values.length :=
    Int64.toInt_ofNat_of_lt (by omega)
  have hsize : IsSize (Int64.ofNat values.length) := by
    rw [IsSize, hlength]
    omega
  have hdims : FieldKind.dims.Spells (decimalNat values.length) [Int64.ofNat values.length] := by
    have hdims : FieldKind.dims.Canonical [Int64.ofNat values.length] :=
      FieldKind.canonical_dims (by simp) (by simp [FieldKind.maxDims]) (by simpa using hsize)
    have htext : FieldKind.dims.write [Int64.ofNat values.length] = decimalNat values.length := by
      show Bytes.join [0x78] [decimal (Int64.ofNat values.length).toInt] = _
      rw [hlength]
      simp [Bytes.join, decimal]
    exact htext ▸ hdims.spells
  refine adds_const hs hstem .int64 n hdims (FieldKind.spells_data ?_ ?_) ?_
  · simpa using List.length_pos_iff.mp hpos
  · intro t ht
    obtain ⟨v, -, rfl⟩ := List.mem_map.mp ht
    exact isNumber_decimal _
  · rw [List.length_map, elementCount]
    simp [hlength]

theorem adds_reshape {source form : Bytes} (hsource : IsIdent source) (hform : IsIdent form)
    (n : Nat) :
    Adds s (reshape source form s).2 named [ascii "reshape"] n
      [.op ⟨n, nameAfter named (ascii "reshape"),
        .plain .reshape [source, form] [nameAfter named (ascii "reshape")]⟩] := by
  have hname : IsIdent (nameAfter named (ascii "reshape")) := isIdent_nameAfter (by decide) named
  exact adds_op hs (ascii "reshape") .reshape (takes_cons (FieldKind.spells_name hname)
    (takes_cons (FieldKind.spells_ident hsource) (takes_cons (FieldKind.spells_ident hform)
      (takes_cons (FieldKind.spells_ident hname) (takes_nil _))))) rfl

theorem adds_concat {sources : List Bytes} (hne : sources ≠ []) (hsources : ∀ t ∈ sources, IsIdent t)
    (axis : Int64) (n : Nat) :
    Adds s (concat axis sources s).2 named [ascii "concat"] n
      [.op ⟨n, nameAfter named (ascii "concat"),
        .concat sources (nameAfter named (ascii "concat")) axis⟩] := by
  have hname : IsIdent (nameAfter named (ascii "concat")) := isIdent_nameAfter (by decide) named
  exact adds_op hs (ascii "concat") .concat (takes_cons (FieldKind.spells_name hname)
    (takes_cons (FieldKind.spells_identList hne hsources)
      (takes_cons (FieldKind.spells_ident hname) (takes_cons (FieldKind.spells_int axis)
        (takes_nil _))))) rfl

theorem adds_unary {head stem source : Bytes} {back : List Bytes} {body : Bytes → Bytes → OpBody}
    (hstem : IsIdent stem) (hsource : IsIdent source) (hfits : Call.UnaryFits head back body)
    (n : Nat) :
    Adds s (unary head stem source back s).2 named [stem] n
      [.op ⟨n, nameAfter named stem, body source (nameAfter named stem)⟩] := by
  have hname := isIdent_nameAfter hstem named
  have htakes := @takes_source _ _ hname hsource
  cases hfits with
  | convMerge => exact adds_op hs stem .convMerge (htakes (takes_nil _)) rfl
  | globalAveragePool => exact adds_op hs stem .globalAveragePool (htakes (takes_nil _)) rfl
  | relu => exact adds_op hs stem .relu (htakes (takes_nil _)) rfl
  | softmax => exact adds_op hs stem .softmax (htakes (takes_nil _)) rfl
  | transpose => exact adds_op hs stem .transpose (htakes (takes_nil _)) rfl
  | dropout hmask =>
    exact adds_op hs stem .dropout (htakes (takes_cons
      ⟨hmask, FieldKind.graphic_of_read (.inl rfl) hmask⟩ (takes_nil _))) rfl
  | squeeze haxes =>
    exact adds_op hs stem .squeeze (htakes (takes_cons
      ⟨haxes, FieldKind.graphic_of_read (.inr (.inl rfl)) haxes⟩ (takes_nil _))) rfl
  | maxPool hkernel hstrides hpad =>
    exact adds_op hs stem .maxPool (htakes (takes_cons
      ⟨hkernel, FieldKind.graphic_of_read (.inr (.inl rfl)) hkernel⟩ (takes_cons
        ⟨hstrides, FieldKind.graphic_of_read (.inr (.inl rfl)) hstrides⟩ (takes_cons
          ⟨hpad, FieldKind.graphic_of_read (.inr (.inr rfl)) hpad⟩ (takes_nil _))))) rfl

theorem adds_binary {head stem source₁ source₂ : Bytes} {type : OpType} (hstem : IsIdent stem)
    (hsource₁ : IsIdent source₁) (hsource₂ : IsIdent source₂) (hfits : Call.BinaryFits head type)
    (n : Nat) :
    Adds s (binary head stem source₁ source₂ s).2 named [stem] n
      [.op ⟨n, nameAfter named stem, .plain type [source₁, source₂] [nameAfter named stem]⟩] := by
  have hname := isIdent_nameAfter hstem named
  cases hfits with
  | add =>
    exact adds_op hs stem .add (takes_cons (FieldKind.spells_name hname)
      (takes_cons (FieldKind.spells_ident hsource₁) (takes_cons (FieldKind.spells_ident hsource₂)
        (takes_cons (FieldKind.spells_ident hname) (takes_nil _))))) rfl
  | matMul =>
    exact adds_op hs stem .matMul (takes_cons (FieldKind.spells_name hname)
      (takes_cons (FieldKind.spells_ident hsource₁) (takes_cons (FieldKind.spells_ident hsource₂)
        (takes_cons (FieldKind.spells_ident hname) (takes_nil _))))) rfl

theorem adds_maxPool {source : Bytes} (hsource : IsIdent source) (r stride : Int64) (n : Nat) :
    Adds s (maxPool source r stride s).2 named [ascii "pool"] n
      [.op ⟨n, nameAfter named (ascii "pool"),
        .maxPool source (nameAfter named (ascii "pool")) [r, r] [stride, stride] .notSet⟩] :=
  adds_unary hs (by decide) hsource (.maxPool (spells_ints r [r]).read
    (spells_ints stride [stride]).read (FieldKind.spells_autoPad .notSet).read) n

theorem adds_convOp {source w b : Bytes} (hsource : IsIdent source) (hw : IsIdent w)
    (hb : IsIdent b) (stride : Int64) (pad : AutoPad) (n : Nat) :
    Adds s (op (ascii "Conv") (ascii "conv")
        [field "FromTensor" source, field "WeightsTensor" w, field "BiasesTensor" b]
        [field "Strides" (joined "," [stride, stride]), field "AutoPad" pad.name] s).2
      named [ascii "conv"] n
      [.op ⟨n, nameAfter named (ascii "conv"),
        .conv source w (some b) (nameAfter named (ascii "conv")) [stride, stride] pad⟩] := by
  have hname : IsIdent (nameAfter named (ascii "conv")) := isIdent_nameAfter (by decide) named
  exact adds_op hs (ascii "conv") .conv (takes_cons (FieldKind.spells_name hname)
    (takes_cons (FieldKind.spells_ident hsource) (takes_cons (FieldKind.spells_ident hw)
      (takes_cons (FieldKind.spells_optIdent hb) (takes_cons (FieldKind.spells_ident hname)
        (takes_cons (spells_ints stride [stride])
          (takes_cons (FieldKind.spells_autoPad pad) (takes_nil _)))))))) rfl

/-- Two constants, and the operator that reads them. -/
theorem adds_conv {source : Bytes} {c k r : Int64} (hsource : IsIdent source)
    (hdims : Call.IsShape [k, c, r, r]) (stride : Int64) (pad : AutoPad) (n : Nat) :
    ∃ ts ts' : List Bytes, (ts.length : Int) = k.toInt * c.toInt * r.toInt * r.toInt ∧
      (ts'.length : Int) = k.toInt ∧
      Adds s (conv source c k r stride pad s).2 named [ascii "w", ascii "b", ascii "conv"] n
        [.const ⟨n, nameAfter named (ascii "w"), .float, [k, c, r, r], .inline ts⟩,
         .const ⟨n + 1, nameAfter named (ascii "b"), .float, [k], .inline ts'⟩,
         .op ⟨n + 2, nameAfter named (ascii "conv"),
          .conv source (nameAfter named (ascii "w")) (some (nameAfter named (ascii "b")))
            (nameAfter named (ascii "conv")) [stride, stride] pad⟩] := by
  have hsizes := hdims.sizes
  simp only [List.forall_mem_cons, List.not_mem_nil, false_imp_iff, implies_true, and_true] at hsizes
  obtain ⟨hk, hc, hr, -⟩ := hsizes
  obtain ⟨bound, hbound, hfinite⟩ : ∃ bound, bound = 1.0 / (floatOfInt64 (c * r * r)).sqrt ∧
    Finite32 bound := ⟨_, rfl, finite32_convBound (one_le_area hc hr)⟩
  have hk' : Call.IsShape [k] := by
    refine ⟨by simp, by simp, by simpa using hk, ?_⟩
    have := hk.2
    simp
    omega
  obtain ⟨ts, hts, hw, hadds⟩ := adds_weights hs (show IsIdent (ascii "w") by decide) hfinite hdims n
  -- The sketches between the lines stay variables, so that no draw is ever unfolded.
  obtain ⟨s₁, hs₁⟩ : ∃ s₁, s₁ = (weights (ascii "w") bound [k, c, r, r] s).2 := ⟨_, rfl⟩
  rw [← hs₁] at hadds
  obtain ⟨ts', hts', hb, hadds'⟩ :=
    adds_weights hadds.counts (show IsIdent (ascii "b") by decide) hfinite hk' (n + 1)
  obtain ⟨s₂, hs₂⟩ : ∃ s₂, s₂ = (weights (ascii "b") bound [k] s₁).2 := ⟨_, rfl⟩
  rw [← hs₂] at hadds'
  rw [nameAfter_append (by decide)] at hb hadds'
  have hw' : IsIdent (nameAfter named (ascii "w")) := isIdent_nameAfter (by decide) named
  have hb' : IsIdent (nameAfter named (ascii "b")) := isIdent_nameAfter (by decide) named
  have hop := adds_convOp hadds'.counts hsource hw' hb' stride pad (n + 2)
  rw [nameAfter_append (by decide), nameAfter_append (by decide)] at hop
  refine ⟨ts, ts', by simpa [mul_assoc] using hts, by simpa using hts', ?_⟩
  rw [conv, bind_apply, bind_apply, ← hbound, ← hs₁, ← hs₂, hw, hb]
  exact hadds.trans (hadds'.trans hop)

end Operations

/-! ## Sequences -/

/-- One operation adds its declarations. -/
theorem adds_run {s : Sketch} {named : List Bytes} (hs : s.Counts named) {call : Call}
    (h : call.Allowed) (n : Nat) :
    ∃ ds, call.Declares named n ds ∧ Adds s (call.run s).2 named call.stems n ds := by
  cases call with
  | input tensor c h' w =>
    obtain ⟨htensor, hc, hh, hw⟩ := h
    exact ⟨_, .input, adds_input hs htensor hc hh hw n⟩
  | weights stem bound dims =>
    obtain ⟨hstem, hbound, hdims⟩ := h
    obtain ⟨ts, hts, -, hadds⟩ := adds_weights hs hstem hbound hdims n
    exact ⟨_, .weights hts, hadds⟩
  | shape stem values =>
    obtain ⟨hstem, hpos, hle⟩ := h
    exact ⟨_, .shape, adds_shape hs hstem hpos hle n⟩
  | conv source c k r stride pad =>
    obtain ⟨hsource, hdims⟩ := h
    obtain ⟨ts, ts', hts, hts', hadds⟩ := adds_conv hs hsource hdims stride pad n
    exact ⟨_, .conv hts hts', hadds⟩
  | maxPool source r stride => exact ⟨_, .maxPool, adds_maxPool hs h r stride n⟩
  | reshape source form =>
    obtain ⟨hsource, hform⟩ := h
    exact ⟨_, .reshape, adds_reshape hs hsource hform n⟩
  | concat axis sources =>
    obtain ⟨hne, hsources⟩ := h
    exact ⟨_, .concat, adds_concat hs hne hsources axis n⟩
  | unary head stem source back =>
    obtain ⟨hstem, hsource, body, hfits⟩ := h
    exact ⟨_, .unary hfits, adds_unary hs hstem hsource hfits n⟩
  | binary head stem source₁ source₂ =>
    obtain ⟨hstem, hsource₁, hsource₂, type, hfits⟩ := h
    exact ⟨_, .binary hfits, adds_binary hs hstem hsource₁ hsource₂ hfits n⟩

theorem adds_calls {s : Sketch} {named : List Bytes} (hs : s.Counts named) {calls : List Call}
    (h : ∀ call ∈ calls, call.Allowed) (n : Nat) :
    ∃ ds, Declared named n calls ds ∧
      Adds s (calls.mapM Call.run s).2 named (calls.flatMap Call.stems) n ds := by
  induction calls generalizing s named n with
  | nil => exact ⟨[], .nil, adds_nothing hs n⟩
  | cons call calls ih =>
    rw [List.forall_mem_cons] at h
    obtain ⟨ds, hds, hadds⟩ := adds_run hs h.1 n
    obtain ⟨ds', hds', hadds'⟩ := ih hadds.counts h.2 (n + ds.length)
    refine ⟨ds ++ ds', .cons hds hds', ?_⟩
    rw [List.mapM_cons]
    exact hadds.trans hadds'

theorem counts_ofSeed (seed : Int64) : (ofSeed seed).Counts [] := by
  intro stem
  exact Std.TreeMap.getD_emptyc

end Sketch

open Sketch in
/-- **What is written is read.** Whatever operations are used, with arguments that the language allows,
the text is accepted: a declaration for each line, in order, with what the operations were given. -/
theorem parse_calls (seed : Int64) {calls : List Call} (h : ∀ call ∈ calls, call.Allowed) :
    ∃ decls, parse (calls.mapM Call.run (ofSeed seed)).2.text.data.toList = .ok decls ∧
      Declared [] 1 calls decls ∧
      decls.length = (calls.mapM Call.run (ofSeed seed)).2.text.data.toList.count 0x0a ∧
      ∀ (i : Nat) (d : Decl), decls[i]? = some d → d.line = (1 + i : Nat) := by
  obtain ⟨ds, hds, ⟨lines, htext, hsays⟩, -⟩ := adds_calls (counts_ofSeed seed) h 1
  rw [htext]
  exact ⟨ds, hsays.parse, hds, hsays.count.symm, hsays.lines⟩

open Sketch in
/-- Every operation, with a mask that is missing, a minus zero and a bound that is rounded. -/
def sketchedCalls : List Call :=
  [.input (ascii "x") 3 8 8,
   .conv (ascii "x") 3 4 3 1 .sameUpper,
   .unary (ascii "Relu") (ascii "relu") (ascii "conv1") [],
   .maxPool (ascii "relu1") 2 2,
   .unary (ascii "Dropout") (ascii "drop") (ascii "pool1") [field "MaskTensor" (ascii "-")],
   .concat (-3) [ascii "drop1", ascii "pool1"],
   .unary (ascii "Squeeze") (ascii "squeeze") (ascii "concat1") [field "Axes" (ascii "2,-0")],
   .shape (ascii "form") [1, -1],
   .reshape (ascii "squeeze1") (ascii "form1"),
   .weights (ascii "w") 0.1 [128, 10],
   .binary (ascii "MatMul") (ascii "mul") (ascii "reshape1") (ascii "w2")]

theorem allowed_sketchedCalls : ∀ call ∈ sketchedCalls, call.Allowed := by
  have hmask : FieldKind.optIdent.read (ascii "-") = .ok none := by decide
  have haxes : FieldKind.intList.read (ascii "2,-0") = .ok [2, 0] := by decide
  have hbound : Finite32 0.1 := ⟨false, 0xcccccd, -27, by decide +kernel⟩
  have hfilters : Sketch.Call.IsShape [4, 3, 3, 3] :=
    ⟨by decide, by decide, by simp [IsSize], by decide⟩
  have hmatrix : Sketch.Call.IsShape [128, 10] :=
    ⟨by decide, by decide, by simp [IsSize], by decide⟩
  simp only [sketchedCalls, List.forall_mem_cons, Sketch.Call.Allowed]
  exact ⟨by decide, ⟨by decide, hfilters⟩, ⟨by decide, by decide, _, .relu⟩, by decide,
    ⟨by decide, by decide, _, .dropout hmask⟩, by decide,
    ⟨by decide, by decide, _, .squeeze haxes⟩, by decide, by decide,
    ⟨by decide, hbound, hmatrix⟩, ⟨by decide, by decide, by decide, _, .matMul⟩, by simp⟩

open Sketch in
theorem parse_sketchedCalls :
    (∀ call ∈ sketchedCalls, call.Allowed) ∧
      ∃ decls, parse (sketchedCalls.mapM Call.run (ofSeed 7)).2.text.data.toList = .ok decls ∧
        Declared [] 1 sketchedCalls decls ∧
        decls.length = (sketchedCalls.mapM Call.run (ofSeed 7)).2.text.data.toList.count 0x0a ∧
        ∀ (i : Nat) (d : Decl), decls[i]? = some d → d.line = (1 + i : Nat) :=
  ⟨allowed_sketchedCalls, parse_calls 7 allowed_sketchedCalls⟩

end NetImage
