import NetImage.Graph.Value

/-!
# NetImage.Graph.Grammar

The graph language: its heads, the fields that follow each head, and the declaration they make.

A declaration is a head followed by every field of that head, in order, each written `Label=Value`.
`Head.fields` lists the fields and `Head.build` takes their values, one argument for each, to the
declaration.
-/

namespace NetImage

/-- A field of a declaration. -/
structure Field where
  label : Bytes
  /-- A value for examples. -/
  sample : Bytes
  kind : FieldKind
  doc : Bytes

namespace Field

def patternDoc (what : String) (pattern : Pattern) : String :=
  "Must be " ++ what ++ ": " ++ pattern.text

def identDoc : String :=
  patternDoc "a letter or underscore followed by zero or more letters/digits/underscores" .ident

def nameDoc : String :=
  patternDoc
    "a letter or underscore followed by zero or more letters/digits/underscores/punctuation" .name

def sizeDoc : String := patternDoc "a positive integer" .size

def intDoc : String := patternDoc "an integer" .int

def floatDoc : String := patternDoc "a float" .float

def dimsDoc : String := "Positive integers joined by \"x\" (at most 6)."

def listDoc : String := "One or more items joined by \",\"."

def ofText (label sample : String) (kind : FieldKind) (doc : String) : Field :=
  ⟨ascii label, ascii sample, kind, ascii doc⟩

def opName (sample : String) : Field :=
  ofText "Name" sample .name
    ("The operator name written into the node table of the model. "
      ++ "The runtime reads it for logging only. It must be shorter than the node name field. "
      ++ nameDoc)

def source (suffix : String) : Field :=
  ofText ("FromTensor" ++ suffix) ("from" ++ suffix) .ident
    ("Read from a pre-existing tensor with this name. " ++ identDoc)

def target : Field :=
  ofText "ToTensor" "to" .ident ("Write to a new tensor with this name. " ++ identDoc)

def strides : Field :=
  ofText "Strides" "1,1" .intList
    ("The step between adjacent windows, heightwise first. "
      ++ "Only the first stride is encoded and it must not exceed 15. " ++ listDoc ++ " " ++ intDoc)

def autoPad : Field :=
  ofText "AutoPad" "NOTSET" .autoPad
    "How implicit padding is derived. VALID means no implicit padding at all."

def inputTensor : Field :=
  ofText "ToTensor" "image" .ident ("A name for this input tensor. " ++ identDoc)

def channels : Field := ofText "Channels" "1" .size ("The number of feature maps. " ++ sizeDoc)

def height : Field := ofText "Height" "28" .size ("The spatial height. " ++ sizeDoc)

def width : Field := ofText "Width" "28" .size ("The spatial width. " ++ sizeDoc)

def constTensor : Field :=
  ofText "ToTensor" "weights" .ident ("A name for this constant tensor. " ++ identDoc)

def elementType : Field :=
  ofText "Type" "Float" .elementType "The element type. Only Float and Int64 compile."

def dims : Field :=
  ofText "Dims" "8x1x5x5" .dims ("The declared shape, outermost dimension first. " ++ dimsDoc)

def data : Field :=
  ofText "Data" "0.5,-0.25" .data
    ("The element values in row-major order, either inline (" ++ listDoc ++ " " ++ floatDoc
      ++ ") or as @PATH naming a raw little-endian file of 32-bit floats or 64-bit integers. "
      ++ "A relative PATH is resolved against the directory of the graph file.")

def sources : Field :=
  ofText "FromTensors" "from1,from2" .identList
    ("The tensors to concatenate, in order. " ++ listDoc ++ " " ++ identDoc)

def axis : Field := ofText "Axis" "1" .int ("The concatenation axis. " ++ intDoc)

def weights : Field :=
  ofText "WeightsTensor" "weights" .ident ("The weight tensor (a Const). " ++ identDoc)

def biases : Field :=
  ofText "BiasesTensor" "biases" .optIdent
    ("The bias tensor (a Const), or - for no bias. " ++ identDoc)

def mask : Field :=
  ofText "MaskTensor" "-" .optIdent ("The mask output, or - if there is none. " ++ identDoc)

def kernel : Field :=
  ofText "KernelShape" "2,2" .intList
    ("The pooling window, heightwise first. " ++ listDoc ++ " " ++ intDoc)

def shape : Field :=
  ofText "ShapeTensor" "shape" .ident ("The Int64 constant holding the new shape. " ++ identDoc)

def axes : Field :=
  ofText "Axes" "0" .intList
    ("The axes to drop. Negative axes count from the last. " ++ listDoc ++ " " ++ intDoc)

end Field

/-- A function of one value for each field. -/
abbrev FromFields (α : Type) : List Field → Type
  | [] => α
  | field :: fields => field.kind.Val → FromFields α fields

/-- A constant whose inline values are not as many as its shape says. -/
structure CountError where
  tensor : Bytes
  given : Nat
  wanted : Int64
  deriving DecidableEq, Repr

/-- The wording of a wrong count. -/
def CountError.message (e : CountError) : Bytes :=
  e.tensor ++ ascii ": " ++ decimal e.given ++ ascii " values for " ++ decimal e.wanted.toInt
    ++ ascii " elements"

/-- The heads of the language. -/
inductive Head where
  | add
  | concat
  | const
  | conv
  | convMerge
  | dropout
  | globalAveragePool
  | input
  | matMul
  | maxPool
  | relu
  | reshape
  | softmax
  | squeeze
  | transpose
  deriving DecidableEq, Repr

namespace Head

/-- Every head, in the order of their names. -/
def all : List Head :=
  [.add, .concat, .const, .conv, .convMerge, .dropout, .globalAveragePool, .input, .matMul,
   .maxPool, .relu, .reshape, .softmax, .squeeze, .transpose]

def name : Head → Bytes
  | .add => ascii "Add"
  | .concat => ascii "Concat"
  | .const => ascii "Const"
  | .conv => ascii "Conv"
  | .convMerge => ascii "ConvMerge"
  | .dropout => ascii "Dropout"
  | .globalAveragePool => ascii "GlobalAveragePool"
  | .input => ascii "Input"
  | .matMul => ascii "MatMul"
  | .maxPool => ascii "MaxPool"
  | .relu => ascii "Relu"
  | .reshape => ascii "Reshape"
  | .softmax => ascii "Softmax"
  | .squeeze => ascii "Squeeze"
  | .transpose => ascii "Transpose"

/-- The head with the given name. -/
def ofName? (s : Bytes) : Option Head := all.find? fun h => h.name == s

/-- What the head declares. -/
def doc : Head → String
  | .add => "Elementwise addition of two tensors."
  | .concat =>
    "Concatenate tensors along one axis. The runtime keeps every source "
      ++ "alive until the consumers of the concatenation are done."
  | .const =>
    "Declare a named constant tensor (a trained parameter or a shape). "
      ++ "If an Input has the same name, the constant takes the id of that Input. "
      ++ "Float values are divided by the model scale and quantized to 16-bit fixed point. "
      ++ "Int64 values are stored verbatim as 64-bit integers."
  | .conv =>
    "Cross-correlation with a KCHW weight tensor and an optional bias tensor. "
      ++ "The compiler splits each Conv into a compute node and a ConvMerge node that "
      ++ "accumulates the channel tiles. Weights are reordered to KHWC before quantization."
  | .convMerge =>
    "Accumulate the channel tiles of a Conv. "
      ++ "The compiler inserts these itself; declaring one directly is allowed but unusual."
  | .dropout =>
    "Dropout is the identity at inference time. Its optional mask output is ignored."
  | .globalAveragePool => "Average every feature map down to a single value."
  | .input =>
    "Declare a graph input. The compiler never stores input data in a parameter region: "
      ++ "the runtime reads each sample from the test set slot. "
      ++ "Channels, Height, and Width must match the shape of every calibration sample."
  | .matMul => "Matrix multiplication of FromTensor1 by FromTensor2 (usually a Const)."
  | .maxPool =>
    "Max pooling. The first kernel dimension and the first stride are encoded "
      ++ "into the node flags and must not exceed 15."
  | .relu => "Elementwise rectified linear unit."
  | .reshape =>
    "Reshape FromTensor to the shape held by ShapeTensor (an Int64 Const). "
      ++ "A Reshape declared right after a MaxPool marks that MaxPool for a layout transform."
  | .softmax => "Softmax along the channel dimension."
  | .squeeze =>
    "Drop size-1 axes. When FromTensor is a Const the compiler folds the squeeze "
      ++ "into the shape of the constant and removes the node."
  | .transpose =>
    "Transpose. The runtime already keeps tensors in the order it needs, "
      ++ "so this is a no-op there."

/-- The fields behind the head, in order. -/
abbrev fields : Head → List Field
  | .add => [.opName "add", .source "1", .source "2", .target]
  | .concat => [.opName "concat", .sources, .target, .axis]
  | .const => [.constTensor, .elementType, .dims, .data]
  | .conv =>
    [.opName "conv", .source "", .weights, .biases, .target, .strides, .autoPad]
  | .convMerge => [.opName "convmerge", .source "", .target]
  | .dropout => [.opName "dropout", .source "", .target, .mask]
  | .globalAveragePool => [.opName "globalaveragepool", .source "", .target]
  | .input => [.inputTensor, .channels, .height, .width]
  | .matMul => [.opName "matmul", .source "1", .source "2", .target]
  | .maxPool => [.opName "pool", .source "", .target, .kernel, .strides, .autoPad]
  | .relu => [.opName "relu", .source "", .target]
  | .reshape => [.opName "reshape", .source "", .shape, .target]
  | .softmax => [.opName "softmax", .source "", .target]
  | .squeeze => [.opName "squeeze", .source "", .target, .axes]
  | .transpose => [.opName "transpose", .source "", .target]

/-- An operator with one source and no attributes. -/
def unary (type : OpType) (line : Int) (name source target : Bytes) : Except CountError Decl :=
  .ok (.op ⟨line, name, .plain type [source] [target]⟩)

/-- An operator with two sources and no attributes. -/
def binary (type : OpType) (line : Int) (name source₁ source₂ target : Bytes) :
    Except CountError Decl :=
  .ok (.op ⟨line, name, .plain type [source₁, source₂] [target]⟩)

/-- A constant. Inline values must be as many as the shape has elements. -/
def const_ (line : Int) (tensor : Bytes) (type : ElementType) (dims : List Int64)
    (data : ConstData) : Except CountError Decl :=
  let decl := Decl.const ⟨line, tensor, type, dims, data⟩
  match data with
  | .file _ => .ok decl
  | .inline values =>
    if (values.length : Int) = (elementCount dims).toInt then .ok decl
    else .error ⟨tensor, values.length, elementCount dims⟩

/-- The declaration that the values of the fields make on the given line. -/
def build (line : Int) : (h : Head) → FromFields (Except CountError Decl) h.fields
  | .add => binary .add line
  | .concat => fun name sources target axis =>
    .ok (.op ⟨line, name, .concat sources target axis⟩)
  | .const => const_ line
  | .conv => fun name source weights bias target strides pad =>
    .ok (.op ⟨line, name, .conv source weights bias target strides pad⟩)
  | .convMerge => unary .convMerge line
  | .dropout => fun name source target mask =>
    .ok (.op ⟨line, name, .dropout source target mask⟩)
  | .globalAveragePool => unary .globalAveragePool line
  | .input => fun tensor channels height width =>
    .ok (.input ⟨line, tensor, channels, height, width⟩)
  | .matMul => binary .matMul line
  | .maxPool => fun name source target kernel strides pad =>
    .ok (.op ⟨line, name, .maxPool source target kernel strides pad⟩)
  | .relu => unary .relu line
  | .reshape => binary .reshape line
  | .softmax => unary .softmax line
  | .squeeze => fun name source target axes =>
    .ok (.op ⟨line, name, .squeeze source target axes⟩)
  | .transpose => unary .transpose line

end Head
end NetImage
