import NetImage.Graph.Operator

/-!
# NetImage.Graph.Declaration

What a graph declares: inputs, constants and operators. A tensor is known by its name, which may be
any byte string; a declaration carries the number of the line it came from.
-/

namespace NetImage

/-- The type of the elements of a constant. -/
inductive ElementType where
  | float
  | int64
  | int32
  | double
  | float16
  | uint8
  deriving DecidableEq, Repr

namespace ElementType

def all : List ElementType := [.float, .int64, .int32, .double, .float16, .uint8]

def name : ElementType → Bytes
  | .float => ascii "Float"
  | .int64 => ascii "Int64"
  | .int32 => ascii "Int32"
  | .double => ascii "Double"
  | .float16 => ascii "Float16"
  | .uint8 => ascii "Uint8"

end ElementType

/-- How implicit padding is derived. -/
inductive AutoPad where
  | notSet
  | valid
  | sameUpper
  | sameLower
  deriving DecidableEq, Repr

namespace AutoPad

def all : List AutoPad := [.notSet, .valid, .sameUpper, .sameLower]

def name : AutoPad → Bytes
  | .notSet => ascii "NOTSET"
  | .valid => ascii "VALID"
  | .sameUpper => ascii "SAME_UPPER"
  | .sameLower => ascii "SAME_LOWER"

end AutoPad

/-- The values of a constant: number texts, or the path of a raw little-endian file. -/
inductive ConstData where
  | inline (values : List Bytes)
  | file (path : Bytes)
  deriving DecidableEq, Repr

/-- A graph input. -/
structure InputDecl where
  line : Int
  tensor : Bytes
  channels : Int64
  height : Int64
  width : Int64
  deriving DecidableEq, Repr

/-- A constant tensor. -/
structure ConstDecl where
  line : Int
  tensor : Bytes
  type : ElementType
  dims : List Int64
  data : ConstData
  deriving DecidableEq, Repr

/-- What an operator reads, writes and is told. -/
inductive OpBody where
  /-- An operator of any type without attributes that the compiler looks at. -/
  | plain (type : OpType) (sources targets : List Bytes)
  | concat (sources : List Bytes) (target : Bytes) (axis : Int64)
  | conv (source weights : Bytes) (bias : Option Bytes) (target : Bytes) (strides : List Int64)
      (pad : AutoPad)
  | dropout (source target : Bytes) (mask : Option Bytes)
  | maxPool (source target : Bytes) (kernel strides : List Int64) (pad : AutoPad)
  | squeeze (source target : Bytes) (axes : List Int64)
  deriving DecidableEq, Repr

namespace OpBody

/-- The operator's type. -/
def type : OpBody → OpType
  | .plain type _ _ => type
  | .concat .. => .concat
  | .conv .. => .conv
  | .dropout .. => .dropout
  | .maxPool .. => .maxPool
  | .squeeze .. => .squeeze

/-- The tensors it reads, in order. -/
def sources : OpBody → List Bytes
  | .plain _ sources _ => sources
  | .concat sources _ _ => sources
  | .conv source weights bias _ _ _ => [source, weights] ++ bias.toList
  | .dropout source _ _ => [source]
  | .maxPool source _ _ _ _ => [source]
  | .squeeze source _ _ => [source]

/-- The tensors it writes, in order. -/
def targets : OpBody → List Bytes
  | .plain _ _ targets => targets
  | .concat _ target _ => [target]
  | .conv _ _ _ target _ _ => [target]
  | .dropout _ target mask => target :: mask.toList
  | .maxPool _ target _ _ _ => [target]
  | .squeeze _ target _ => [target]

end OpBody

/-- A named operator. -/
structure OpDecl where
  line : Int
  name : Bytes
  body : OpBody
  deriving DecidableEq, Repr

/-- One declaration of a graph. -/
inductive Decl where
  | input (decl : InputDecl)
  | const (decl : ConstDecl)
  | op (decl : OpDecl)
  deriving DecidableEq, Repr

/-- The line a declaration came from. -/
def Decl.line : Decl → Int
  | .input d => d.line
  | .const d => d.line
  | .op d => d.line

/-- The tensors a declaration reads. -/
def Decl.sources : Decl → List Bytes
  | .input _ => []
  | .const _ => []
  | .op d => d.body.sources

/-- The tensors a declaration writes. -/
def Decl.targets : Decl → List Bytes
  | .input d => [d.tensor]
  | .const d => [d.tensor]
  | .op d => d.body.targets

/-- The number of elements of a shape, modulo two to the 64. -/
def elementCount (dims : List Int64) : Int64 := dims.foldl (· * ·) 1

/-- The files that the constants of a graph name, in order. -/
def constFiles (decls : List Decl) : List Bytes :=
  decls.filterMap fun
    | .const { data := .file path, .. } => some path
    | _ => none

end NetImage
