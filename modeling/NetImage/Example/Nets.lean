import NetImage.Example.Sketch

/-!
# NetImage.Example.Nets

Two example nets. Their weights are drawn from a fixed seed, so each always compiles to the same
image.
-/

namespace NetImage
namespace Example

open Sketch

/-- A tensor and its number of channels. -/
structure Feature where
  tensor : Bytes
  channels : Int64

/-- A small classifier of handwritten digits: two stages of convolution and pooling, and one fully
connected layer whose bias is declared 1x10 and squeezed. -/
def leNet5 : SketchM Unit := do
  let side := 28
  let features := 16 * 4 * 4
  let x ← input (ascii "image") 1 side side
  let x ← conv x 1 8 5 1 .sameUpper
  let x ← unary (ascii "Relu") (ascii "relu") x []
  let x ← maxPool x 2 2
  let x ← conv x 8 16 5 1 .sameUpper
  let x ← unary (ascii "Relu") (ascii "relu") x []
  let x ← maxPool x 3 3
  let s ← shape (ascii "shape") [1, features]
  let x ← reshape x s
  let w ← weights (ascii "w") 0.0625 [features, 10]
  let x ← binary (ascii "MatMul") (ascii "matmul") x w
  let bias ← weights (ascii "b") 0.0625 [1, 10]
  let bias ← unary (ascii "Squeeze") (ascii "squeeze") bias [field "Axes" (ascii "0")]
  let _ ← binary (ascii "Add") (ascii "add") x bias

/-- A convolution with stride one and a rectifier. -/
def rectified (f : Feature) (k r : Int64) (pad : AutoPad) : SketchM Feature := do
  let x ← conv f.tensor f.channels k r 1 pad
  let x ← unary (ascii "Relu") (ascii "relu") x []
  pure ⟨x, k⟩

/-- Squeezes to `s` channels, then expands to `2 * e` through a 1x1 and a 3x3 branch. -/
def fire (f : Feature) (s e : Int64) : SketchM Feature := do
  let f ← rectified f s 1 .notSet
  let e₁ ← rectified f e 1 .notSet
  let e₃ ← rectified f e 3 .sameUpper
  let x ← concat 1 [e₁.tensor, e₃.tensor]
  pure ⟨x, 2 * e⟩

/-- A pooling over 2 by 2. -/
def pool (f : Feature) : SketchM Feature := do
  let x ← maxPool f.tensor 2 2
  pure ⟨x, f.channels⟩

/-- A small net of fire modules for pictures of ten classes. -/
def squeezeNet : SketchM Unit := do
  let x ← input (ascii "image") 3 32 32
  let f ← rectified ⟨x, 3⟩ 16 3 .valid
  let f ← pool f
  let f ← fire f 8 16
  let f ← fire f 8 16
  let f ← pool f
  let f ← fire f 16 32
  let x ← unary (ascii "Dropout") (ascii "dropout") f.tensor [field "MaskTensor" (ascii "-")]
  let f ← rectified ⟨x, f.channels⟩ 10 1 .notSet
  let x ← unary (ascii "GlobalAveragePool") (ascii "gap") f.tensor []
  let s ← shape (ascii "shape") [1, 10]
  let x ← reshape x s
  let _ ← unary (ascii "Softmax") (ascii "softmax") x []

/-- The examples: a name, a seed and the net. -/
def menu : List (Bytes × Int64 × SketchM Unit) :=
  [(ascii "LeNet5", 5, leNet5), (ascii "SqueezeNet", 10, squeezeNet)]

/-- The names of the examples. -/
def names : List Bytes := menu.map Prod.fst

/-- The text of the example with the given name. -/
def text? (name : Bytes) : Option ByteArray :=
  (menu.find? fun entry => entry.1 == name).map fun (_, seed, net) =>
    (net (Sketch.ofSeed seed)).2.text

end Example
end NetImage
