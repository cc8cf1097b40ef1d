import NetImage.Config
import NetImage.Graph.Operator
import NetImage.Model.Flags

/-!
# NetImage.Model.Plan

Everything that is written for a model: its nodes in the order they run, its parameters by id, and
the bytes of its regions. Inputs and constants have the ids below `nInput`, nodes those from there on.
-/

namespace NetImage

/-- The slots that do not hold intermediate values. -/
def slotParameters : Int := 0xf0
def slotParameters2 : Int := 0xf1
def slotTestSet : Int := 0xff

/-- The slot of intermediate values. -/
def slotIntermediateValues : Int := 0b01

/-- The width of the name field of a node. -/
def nodeNameLen : Nat := 54

/-- The runtime's mark for an output that is no longer live. -/
def maxOutputIdInvalid : Int := 0x8000

/-- How many counters the runtime keeps. -/
def countersLen : Nat := 64

/-- An operator of the model. -/
structure Node where
  id : Int
  name : Bytes
  /-- The ids it reads, in order. -/
  inputs : List Int
  op : OpType
  flags : Flags := {}
  /-- The last node that needs its output, or zero. -/
  maxOutputId : Int := 0
  deriving DecidableEq, Repr

/-- How the elements of a parameter are stored. -/
inductive ParamType where
  | fixed16
  | int64
  deriving DecidableEq, Repr

/-- The width of an element in bits. -/
def ParamType.bits : ParamType → Int
  | .fixed16 => 16
  | .int64 => 64

/-- An input or a constant. -/
structure Param where
  id : Int
  name : Bytes
  /-- Is it fed from the samples? -/
  input : Bool
  dims : List Int
  type : ParamType
  bytes : Int
  offset : Int
  slot : Int
  tileC : Int
  scale : Int
  deriving DecidableEq, Repr

/-- A model ready to be written. -/
structure Plan where
  config : Config
  nInput : Int
  nodes : List Node
  params : List Param
  region1 : ByteArray
  region2 : ByteArray
  samples : ByteArray
  labels : List Int

end NetImage
