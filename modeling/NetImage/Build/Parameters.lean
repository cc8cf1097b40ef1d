import NetImage.Build.Layout
import NetImage.Build.Numbering
import NetImage.Number.Literal
import NetImage.Number.Q15
import NetImage.Region
import NetImage.Sample

/-!
# NetImage.Build.Parameters

The parameters of a model. Real constants are divided by the scale of the model and quantized, with
the channels of convolution weights moved last; integer constants are stored as they are. Inputs only
get a record that points at the samples.
-/

namespace NetImage

/-- What the compiler reads files with: the bytes of a file, or what is said about it. -/
abbrev FileReader := Bytes → Except Bytes ByteArray

/-- Values in fixed point, with a report for each that is beyond range. -/
structure Quantized where
  bytes : Bytes
  reports : List Event
  overflows : Nat

namespace Quantized

/-- Quantizes values divided by the scale. -/
def ofValues (scale : Int64) (values : List Float) : Quantized :=
  let scaled := values.map fun x => descale x scale
  { bytes := scaled.flatMap fun x => Wire.i16 (quantize x)
    reports := (scaled.filter isBeyondQ15).map fun x => .beyondRange x Q15.lower Q15.upper
    overflows := countBeyondQ15 scaled }

end Quantized

namespace Parameters

/-- Everything that the parameters depend on beside the graph. -/
structure Context where
  config : Config
  samples : List Sample
  read : FileReader
  /-- The tensors that some convolution reads as its weights. -/
  weights : Std.TreeSet Bytes

/-- The bytes of the file of a constant whose elements have `width` bytes. -/
def load (ctx : Context) (c : ConstDecl) (path : Bytes) (width : Nat) : Except Fault Bytes :=
  match ctx.read path with
  | .error reason => .error (.file c.tensor c.line reason)
  | .ok bytes =>
    if bytes.size % width = 0 then .ok bytes.data.toList
    else .error (.fileLength c.tensor c.line path bytes.size width)

/-- The values of a real constant. -/
def reals (ctx : Context) (c : ConstDecl) : Except Fault (List Float) :=
  match c.data with
  | .file path =>
    (load ctx c path 4).map fun bytes =>
      (Wire.words 4 bytes).map fun w => widen (Float32.ofBits (UInt32.ofNat w))
  | .inline texts =>
    texts.mapM fun text =>
      match readFloat32 text with
      | .ok x => .ok (widen x)
      | .error e => .error (.number c.tensor c.line ⟨.real, text, e⟩)

/-- The values of an integer constant. -/
def integers (ctx : Context) (c : ConstDecl) : Except Fault (List Int64) :=
  match c.data with
  | .file path =>
    (load ctx c path 8).map fun bytes => (Wire.words 8 bytes).map Int64.ofNat
  | .inline texts =>
    texts.mapM fun text =>
      match readInt64 text with
      | .ok n => .ok n
      | .error e => .error (.number c.tensor c.line ⟨.element, text, e⟩)

/-- An extent as a count; a negative one counts nothing. -/
def extent (dim : Int64) : Nat := dim.toInt.toNat

/-- The values of weights with the channel last. -/
def reorder (c : ConstDecl) (values : List Float) : Traced Fault (List Float) :=
  match c.dims with
  | [n, k, h, w] => do
    Traced.tell #[.weightsReordered c.tensor]
    match channelsLast 0.0 values (extent n) (extent k) (extent h) (extent w) with
    | some values => pure values
    | none => Traced.ofExcept (.error (.weightsExtent c.tensor c.line))
  | dims => Traced.ofExcept (.error (.weightsDims c.tensor c.line dims.length))

/-- The stored form of a constant: its type and its bytes, and how many values were beyond range. -/
def encode (ctx : Context) (c : ConstDecl) : Traced Fault (ParamType × Bytes × Nat) := do
  let elements := elementCount c.dims
  match c.type with
  | .float =>
    let values ← Traced.ofExcept (reals ctx c)
    if (values.length : Int) ≠ elements.toInt ∨ elements = 0 then
      Traced.ofExcept (.error (.valueCount c.tensor c.line values.length elements))
    else
      let values ← if ctx.weights.contains c.tensor then reorder c values else pure values
      let q := Quantized.ofValues ctx.config.scale values
      Traced.tell q.reports.toArray
      pure (.fixed16, q.bytes, q.overflows)
  | .int64 =>
    let values ← Traced.ofExcept (integers ctx c)
    if (values.length : Int) ≠ elements.toInt then
      Traced.ofExcept (.error (.valueCount c.tensor c.line values.length elements))
    else pure (.int64, values.flatMap fun n => Wire.i64 n.toInt, 0)
  | type => Traced.ofExcept (.error (.elementType c.tensor c.line type))

/-- Can a constant of this type and shape be stored? -/
def checkConst (c : ConstDecl) : Except Fault Unit :=
  if c.type ≠ .float ∧ c.type ≠ .int64 then .error (.elementType c.tensor c.line c.type)
  else if dimsLen < c.dims.length then .error (.dimsCount c.tensor c.line c.dims.length)
  else .ok ()

/-- Does every sample have the shape of the input it feeds? -/
def checkSamples (i : InputDecl) (samples : List Sample) : Except Fault Unit :=
  let wanted := (i.channels, i.height, i.width)
  samples.zipIdx.forM fun (s, index) =>
    let given := (s.channels, s.height, s.width)
    if given = wanted then .ok () else .error (.sampleShape i.tensor i.line index given wanted)

/-- The parameters placed so far, newest first, and how many values were beyond range. -/
structure State where
  regions : Regions
  done : List Param
  count : Nat
  overflows : Nat

/-- Describes an input. The samples feed the first parameter only, so only that one must match. -/
def State.addInput (ctx : Context) (s : State) (i : InputDecl) : Traced Fault State := do
  if s.count = 0 then Traced.ofExcept (checkSamples i ctx.samples)
  let placement := s.regions.reserve
  let param : Param :=
    { id := s.count
      name := i.tensor
      input := true
      dims := [1, i.channels.toInt, i.height.toInt, i.width.toInt]
      type := .fixed16
      bytes := (i.channels * i.height * i.width * 2).toInt
      offset := placement.offset
      slot := placement.slot
      tileC := i.channels.toInt
      scale := ctx.config.scale.toInt }
  pure { s with done := param :: s.done, count := s.count + 1 }

/-- Stores a constant. -/
def State.addConst (ctx : Context) (s : State) (c : ConstDecl) : Traced Fault State := do
  Traced.ofExcept (checkConst c)
  let (type, bytes, overflows) ← encode ctx c
  let (regions, placement) := s.regions.place bytes
  let tileC := match c.dims with
    | [_, k, _, _] => k.toInt
    | _ => 0
  let param : Param :=
    { id := s.count
      name := c.tensor
      input := false
      dims := c.dims.map Int64.toInt
      type := type
      bytes := bytes.length
      offset := placement.offset
      slot := placement.slot
      tileC := tileC
      scale := ctx.config.scale.toInt }
  pure ⟨regions, param :: s.done, s.count + 1, s.overflows + overflows⟩

/-- One parameter further. -/
def State.add (ctx : Context) (s : State) : ParamSource → Traced Fault State
  | .fed i => s.addInput ctx i
  | .stored c => s.addConst ctx c

end Parameters

/-- The parameters of a model. -/
structure Parameters where
  records : List Param
  region1 : ByteArray
  region2 : ByteArray
  overflows : Nat

namespace Parameters

/-- Places the parameters in the order of their ids. -/
def place (ctx : Context) (sources : List ParamSource) : Traced Fault Parameters := do
  let start : State := ⟨.empty ctx.config.paramThreshold.toInt, [], 0, 0⟩
  let s ← Traced.fold (State.add ctx) start sources
  let region1 := s.regions.first.data
  let region2 := s.regions.second.data
  Traced.tell #[.parametersPlaced region1.size region2.size s.overflows]
  pure ⟨s.done.reverse, region1, region2, s.overflows⟩

end Parameters
end NetImage
