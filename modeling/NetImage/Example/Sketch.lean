import NetImage.Example.LaggedFibonacci
import NetImage.Graph.Declaration
import NetImage.Number.Fixed
import Std.Data.TreeMap

/-!
# NetImage.Example.Sketch

Writing graphs. A sketch is a text in the graph language that grows line by line, a counter for each
stem of a name, and a generator for weights. Each operation writes the declarations it stands for and
gives back the name of the tensor they make.
-/

namespace NetImage

/-- A graph being written. -/
structure Sketch where
  text : ByteArray
  counters : Std.TreeMap Bytes Nat
  generator : Generator

/-- An operation on a graph being written. -/
abbrev SketchM := StateM Sketch

namespace Sketch

/-- An empty graph. -/
def ofSeed (seed : Int64) : Sketch := ⟨.empty, ∅, .ofSeed seed⟩

/-- A label and its value. -/
def field (label : String) (value : Bytes) : Bytes := ascii label ++ 0x3d :: value

/-- Integers with `sep` between them. -/
def joined (sep : String) (ns : List Int64) : Bytes :=
  Bytes.join (ascii sep) (ns.map fun n => decimal n.toInt)

/-- The stem with a number behind it that counts the names of this stem. -/
def name (stem : Bytes) : SketchM Bytes := fun s =>
  let count := s.counters.getD stem 0 + 1
  (stem ++ decimalNat count, { s with counters := s.counters.insert stem count })

/-- A declaration on a line of its own. -/
def line (head : Bytes) (fields : List Bytes) : SketchM Unit := fun s =>
  let ⟨text, counters, generator⟩ := s
  let text := fields.foldl (fun text f => extend (text.push 0x20) f) (extend text head)
  ((), ⟨text.push 0x0a, counters, generator⟩)

/-- How often a draw may be made again. It is a cut and not a part of the generator: about one word in
`2 ^ 54` rounds to one, and a later cut changes a weight only behind 65 such words in a row. -/
def redraws : Nat := 64

/-- Draws `n` weights between `-bound` and `bound`; `done` holds those before, newest first. -/
def draw (bound : Float) : Nat → List Bytes → Generator → List Bytes × Generator
  | 0, done, g => (done.reverse, g)
  | n + 1, done, g =>
    let (x, g) := g.unit redraws
    draw bound n (fixedPoint ((x * 2.0 - 1.0) * bound) :: done) g

/-- A graph input. -/
def input (tensor : Bytes) (c h w : Int64) : SketchM Bytes := do
  line (ascii "Input")
    [field "ToTensor" tensor, field "Channels" (decimal c.toInt), field "Height" (decimal h.toInt),
     field "Width" (decimal w.toInt)]
  pure tensor

/-- A constant. -/
def const (stem : Bytes) (type : ElementType) (dims data : Bytes) : SketchM Bytes := do
  let tensor ← name stem
  line (ascii "Const")
    [field "ToTensor" tensor, field "Type" type.name, field "Dims" dims, field "Data" data]
  pure tensor

/-- A real constant with values drawn between `-bound` and `bound`. -/
def weights (stem : Bytes) (bound : Float) (dims : List Int64) : SketchM Bytes := do
  let values ← fun s =>
    let ⟨text, counters, generator⟩ := s
    let (values, generator) := draw bound (elementCount dims).toInt.toNat [] generator
    (values, (⟨text, counters, generator⟩ : Sketch))
  const stem .float (joined "x" dims) (Bytes.join (ascii ",") values)

/-- An integer constant with the given values. -/
def shape (stem : Bytes) (values : List Int64) : SketchM Bytes :=
  const stem .int64 (decimalNat values.length) (joined "," values)

/-- An operator named like its output. `front` goes between name and output, `back` behind. -/
def op (head stem : Bytes) (front back : List Bytes) : SketchM Bytes := do
  let target ← name stem
  line head ([field "Name" target] ++ front ++ [field "ToTensor" target] ++ back)
  pure target

/-- An operator with one source. -/
def unary (head stem source : Bytes) (back : List Bytes) : SketchM Bytes :=
  op head stem [field "FromTensor" source] back

/-- An operator with two sources. -/
def binary (head stem source₁ source₂ : Bytes) : SketchM Bytes :=
  op head stem [field "FromTensor1" source₁, field "FromTensor2" source₂] []

/-- A convolution with new weights and biases: `k` filters of `r` by `r` over `c` channels. -/
def conv (source : Bytes) (c k r stride : Int64) (pad : AutoPad) : SketchM Bytes := do
  let bound := 1.0 / (floatOfInt64 (c * r * r)).sqrt
  let w ← weights (ascii "w") bound [k, c, r, r]
  let b ← weights (ascii "b") bound [k]
  op (ascii "Conv") (ascii "conv")
    [field "FromTensor" source, field "WeightsTensor" w, field "BiasesTensor" b]
    [field "Strides" (joined "," [stride, stride]), field "AutoPad" pad.name]

/-- A pooling over `r` by `r`. -/
def maxPool (source : Bytes) (r stride : Int64) : SketchM Bytes :=
  unary (ascii "MaxPool") (ascii "pool") source
    [field "KernelShape" (joined "," [r, r]), field "Strides" (joined "," [stride, stride]),
     field "AutoPad" AutoPad.notSet.name]

/-- A reshape to the shape that a constant holds. -/
def reshape (source shape : Bytes) : SketchM Bytes :=
  op (ascii "Reshape") (ascii "reshape") [field "FromTensor" source, field "ShapeTensor" shape] []

/-- A concatenation. -/
def concat (axis : Int64) (sources : List Bytes) : SketchM Bytes :=
  op (ascii "Concat") (ascii "concat") [field "FromTensors" (Bytes.join (ascii ",") sources)]
    [field "Axis" (decimal axis.toInt)]

end Sketch
end NetImage
