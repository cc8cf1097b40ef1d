import NetImage.Bytes

/-!
# NetImage.Graph.Operator

Operator types. The runtime dispatches on the index of an operator in its table, so a type is an
index; the table says what is known of the operators the runtime has.
-/

namespace NetImage

/-- An operator type, by its index in the runtime's table. An index outside the table names no
operator, yet can be written into a model. -/
structure OpType where
  index : Int
  deriving DecidableEq, Repr

/-- What the table says of an operator. -/
structure OpInfo where
  name : Bytes
  /-- How many inputs the runtime expects. -/
  expectedInputs : Nat
  /-- Does the operator write over its input? -/
  inPlace : Bool
  deriving Repr

namespace OpType

def add : OpType := ⟨0⟩
def concat : OpType := ⟨1⟩
def conv : OpType := ⟨2⟩
def convMerge : OpType := ⟨3⟩
def dropout : OpType := ⟨4⟩
def globalAveragePool : OpType := ⟨5⟩
def matMul : OpType := ⟨6⟩
def maxPool : OpType := ⟨7⟩
def relu : OpType := ⟨8⟩
def reshape : OpType := ⟨9⟩
def softmax : OpType := ⟨10⟩
def squeeze : OpType := ⟨11⟩
def transpose : OpType := ⟨12⟩

/-- The runtime's operators, in the order of its table. -/
def table : List OpInfo :=
  [⟨ascii "Add", 2, false⟩, ⟨ascii "Concat", 2, false⟩, ⟨ascii "Conv", 3, false⟩,
   ⟨ascii "ConvMerge", 1, false⟩, ⟨ascii "Dropout", 1, true⟩,
   ⟨ascii "GlobalAveragePool", 1, false⟩, ⟨ascii "MatMul", 2, false⟩,
   ⟨ascii "MaxPool", 1, false⟩, ⟨ascii "Relu", 1, false⟩, ⟨ascii "Reshape", 2, true⟩,
   ⟨ascii "Softmax", 1, true⟩, ⟨ascii "Squeeze", 1, true⟩, ⟨ascii "Transpose", 1, true⟩]

/-- The table's entry for a type. -/
def info? (t : OpType) : Option OpInfo :=
  if t.index < 0 then none else table[t.index.toNat]?

/-- The name of a type, or its index if it has no name. -/
def name (t : OpType) : Bytes :=
  match t.info? with
  | some info => info.name
  | none => ascii "OpType(" ++ decimal t.index ++ ascii ")"

/-- The types in the order of the table, each with its entry. -/
def entries : List (OpType × OpInfo) :=
  table.zipIdx.map fun (info, i) => (⟨i⟩, info)

end OpType
end NetImage
