import NetImage.Build.Squeeze
import NetImage.Graph.Declaration
import NetImage.Image
import NetImage.Model.Record
import NetImage.Number.Integer

/-!
# NetImage.Build.Fault

Why a graph does not compile. Each cause has its kind, the lines and the tensor it is about, and its
wording.
-/

namespace NetImage

/-- What sort of fault it is. -/
inductive FaultKind where
  /-- A rule on the shape of the graph or the model is broken. -/
  | structural
  /-- A constant has a type that cannot be stored. -/
  | unsupportedType
  /-- The image does not fit. -/
  | capacity
  /-- The image cannot be laid out at all. -/
  | outside
  | other
  deriving DecidableEq, Repr

/-- A message about a tensor and at most two lines. Equal lines are given once, others in increasing
order. -/
def locate (lines : List Int) (tensor message : Bytes) : Bytes :=
  let place := match lines with
    | [] => []
    | [l] => ascii "line " ++ decimal l ++ ascii ": "
    | l₀ :: l₁ :: _ =>
      if l₀ = l₁ then ascii "line " ++ decimal l₀ ++ ascii ": "
      else
        ascii "lines " ++ decimal (min l₀ l₁) ++ ascii " and " ++ decimal (max l₀ l₁) ++ ascii ": "
  let subject := if tensor.isEmpty then [] else tensor ++ ascii ": "
  place ++ subject ++ message

/-- Why a graph does not compile. -/
inductive Fault where
  | sameInput (tensor : Bytes) (line₁ line₂ : Int)
  | sameConst (tensor : Bytes) (line₁ line₂ : Int)
  | noOperators
  | squeezedAgain (tensor : Bytes) (line₁ line₂ : Int)
  | axis (tensor : Bytes) (line : Int) (error : AxisError)
  | outputs (name : Bytes) (line : Int) (count : Nat)
  | consumedTooEarly (tensor : Bytes) (line : Int)
  | neverProduced (tensor : Bytes) (line : Int)
  | producedAgain (tensor : Bytes) (line₁ line₂ : Int)
  | flags (name : Bytes) (line : Int) (error : FlagsError)
  | sampleShape (tensor : Bytes) (line : Int) (index : Nat) (given wanted : Int64 × Int64 × Int64)
  | elementType (tensor : Bytes) (line : Int) (type : ElementType)
  | dimsCount (tensor : Bytes) (line : Int) (count : Nat)
  | valueCount (tensor : Bytes) (line : Int) (given : Nat) (wanted : Int64)
  | weightsDims (tensor : Bytes) (line : Int) (count : Nat)
  | weightsExtent (tensor : Bytes) (line : Int)
  | number (tensor : Bytes) (line : Int) (error : NumberError)
  | file (tensor : Bytes) (line : Int) (reason : Bytes)
  | fileLength (tensor : Bytes) (line : Int) (path : Bytes) (given multiple : Nat)
  | label (index : Nat) (value : Int64)
  | model (error : ModelError)
  | image (error : ImageError)
  deriving DecidableEq, Repr

namespace Fault

def kind : Fault → FaultKind
  | .sameInput .. => .other
  | .sameConst .. => .other
  | .noOperators => .other
  | .squeezedAgain .. => .structural
  | .axis .. => .structural
  | .outputs .. => .structural
  | .consumedTooEarly .. => .structural
  | .neverProduced .. => .other
  | .producedAgain .. => .other
  | .flags .. => .structural
  | .sampleShape .. => .structural
  | .elementType .. => .unsupportedType
  | .dimsCount .. => .structural
  | .valueCount .. => .structural
  | .weightsDims .. => .structural
  | .weightsExtent .. => .outside
  | .number .. => .other
  | .file .. => .other
  | .fileLength .. => .structural
  | .label .. => .other
  | .model _ => .structural
  | .image (.capacity ..) => .capacity
  | .image .outside => .outside

/-- Three extents with `x` between them. -/
def extents (s : Int64 × Int64 × Int64) : Bytes :=
  decimal s.1.toInt ++ ascii "x" ++ decimal s.2.1.toInt ++ ascii "x" ++ decimal s.2.2.toInt

/-- The wording of a fault without what its kind adds. -/
def detail : Fault → Bytes
  | .sameInput tensor l₁ l₂ => locate [l₁, l₂] tensor (ascii "Inputs have the same ToTensor")
  | .sameConst tensor l₁ l₂ => locate [l₁, l₂] tensor (ascii "Consts have the same ToTensor")
  | .noOperators => ascii "no operators"
  | .squeezedAgain tensor l₁ l₂ =>
    locate [l₁, l₂] tensor (ascii "constant is squeezed more than once")
  | .axis tensor line error => locate [line] tensor error.message
  | .outputs name line count =>
    locate [line] name (decimal count ++ ascii " outputs (exactly one allowed)")
  | .consumedTooEarly tensor line =>
    locate [line] tensor (ascii "tensor is consumed before it is produced")
  | .neverProduced tensor line =>
    locate [line] tensor (ascii "tensor is consumed but never produced")
  | .producedAgain tensor l₁ l₂ =>
    locate [l₁, l₂] tensor (ascii "tensor is produced more than once")
  | .flags name line error => locate [line] name error.message
  | .sampleShape tensor line index given wanted =>
    locate [line] tensor
      (ascii "sample " ++ decimal index ++ ascii " is " ++ extents given ++ ascii ", expected "
        ++ extents wanted)
  | .elementType tensor line type =>
    locate [line] tensor (type.name ++ ascii " constants cannot be stored")
  | .dimsCount tensor line count =>
    locate [line] tensor (decimal count ++ ascii " dims (at most " ++ decimal dimsLen ++ ascii ")")
  | .valueCount tensor line given wanted =>
    locate [line] tensor
      (decimal given ++ ascii " values for " ++ decimal wanted.toInt ++ ascii " elements")
  | .weightsDims tensor line count =>
    locate [line] tensor (ascii "conv weights have " ++ decimal count ++ ascii " dims")
  | .weightsExtent tensor line => locate [line] tensor (ascii "conv weights are too large")
  | .number tensor line error => locate [line] tensor error.message
  | .file tensor line reason =>
    ascii "line " ++ decimal line ++ ascii ": " ++ tensor ++ ascii ": " ++ reason
  | .fileLength tensor line path given multiple =>
    locate [line] tensor
      (path ++ ascii " holds " ++ decimal given ++ ascii " bytes, not a multiple of "
        ++ decimal multiple)
  | .label index value =>
    ascii "sample " ++ decimal index ++ ascii ": label " ++ decimal value.toInt
      ++ ascii " does not fit a byte"
  | .model error => error.message
  | .image (.capacity need available) =>
    ascii "need NVM size " ++ decimal need.toInt ++ ascii ", have " ++ decimal available.toInt
  | .image .outside => ascii "a section lies outside the image"

/-- What the kind adds to the wording. -/
def cause : FaultKind → Bytes
  | .structural => ascii ": structural invariant violated"
  | .unsupportedType => ascii ": unsupported data type"
  | _ => []

/-- What is wrong. -/
def reason (f : Fault) : Bytes := f.detail ++ cause f.kind

/-- The wording of a fault. -/
def message (f : Fault) : Bytes := ascii "compile failed: " ++ f.reason

end Fault
end NetImage
