import NetImage.Model.Plan
import NetImage.Wire

/-!
# NetImage.Model.Record

The model section of an image: a header, one record for each node, one for each parameter, an empty
one for the output of each node, and the array of input ids that the node records point into.

* `Plan.check` — ids are dense, parameters first, then nodes in order.
* `Plan.checkNodes` — every node fits its record.
* `Plan.encode` — the section.
-/

namespace NetImage

/-- Why a plan cannot be written. -/
inductive ModelError where
  | paramCount (given : Nat) (nInput : Int)
  | paramId (name : Bytes) (id : Int) (position : Nat)
  | paramDims (name : Bytes) (dims : Nat)
  | nodeId (name : Bytes) (id : Int) (position : Nat)
  | idCount (ids : Int)
  | nameLength (name : Bytes)
  | indexLength (name : Bytes)
  | maxOutputId (name : Bytes) (id : Int)
  | flags (name : Bytes) (error : FlagsError)
  deriving DecidableEq, Repr

/-- The largest number in a field of two bytes. -/
def u16Max : Nat := 0xffff

/-- The wording of an error. -/
def ModelError.message : ModelError → Bytes
  | .paramCount given nInput =>
    decimal given ++ ascii " parameter records for " ++ decimal nInput ++ ascii " inputs"
  | .paramId name id position =>
    ascii "parameter " ++ name ++ ascii " has id " ++ decimal id ++ ascii " at position "
      ++ decimal position
  | .paramDims name dims => ascii "parameter " ++ name ++ ascii " has " ++ decimal dims ++ ascii " dims"
  | .nodeId name id position =>
    ascii "node " ++ name ++ ascii " has id " ++ decimal id ++ ascii " at position "
      ++ decimal position
  | .idCount ids => decimal ids ++ ascii " ids do not fit the input index array"
  | .nameLength name =>
    ascii "node name " ++ quote name ++ ascii " is longer than " ++ decimal (nodeNameLen - 1)
      ++ ascii " bytes"
  | .indexLength name =>
    ascii "node " ++ name ++ ascii ": input index array exceeds " ++ decimal u16Max ++ ascii " bytes"
  | .maxOutputId name id => ascii "node " ++ name ++ ascii ": max output id " ++ decimal id
  | .flags name error => name ++ ascii ": " ++ error.message

/-- How many dims a record holds. -/
def dimsLen : Nat := 4

/-- The last four of the dims behind enough ones. -/
def paddedDims (dims : List Int) : List Int :=
  List.replicate (dimsLen - dims.length) 1 ++ dims.drop (dims.length - dimsLen)

/-- The size of the header for the given number of intermediate value slots. -/
def headerBytes (numSlots : Int64) : Int64 := (5 + 2 * numSlots + 2) * 2

namespace Record

/-- The end of a parameter record: flags, extra information, scale and padding. -/
def paramEnd (scale : Int) : Bytes :=
  Wire.u8 0 ++ Wire.zeros 3 ++ Wire.u16 scale ++ Wire.zeros 2

/-- The record of a parameter. -/
def param (p : Param) : Bytes :=
  Wire.u32 p.offset ++ Wire.u32 p.bytes ++ Wire.u8 p.type.bits ++ Wire.u8 p.slot
    ++ Wire.u16 p.tileC ++ (paddedDims p.dims).flatMap Wire.u16 ++ paramEnd p.scale

/-- The record of a node's output, which the runtime fills in. -/
def placeholder (scale : Int) : Bytes :=
  Wire.u32 0 ++ Wire.u32 0 ++ Wire.u8 0 ++ Wire.u8 0 ++ Wire.u16 0 ++ Wire.zeros (2 * dimsLen)
    ++ paramEnd scale

/-- The record of a node whose inputs start at byte `start` of the index array. -/
def node (start : Nat) (n : Node) : Bytes :=
  Wire.padded n.name nodeNameLen ++ Wire.u16 n.inputs.length ++ Wire.u16 start
    ++ Wire.u16 n.maxOutputId ++ Wire.u16 n.op.index ++ Wire.u16 n.flags.bits.toNat

/-- The entries of the index array for a node. The low bit is the runtime's mark for its topological
sort, so ids are doubled. -/
def inputs (n : Node) : Bytes := n.inputs.flatMap fun id => Wire.i16 (id * 2)

/-- How many bytes of the index array a node takes. -/
def inputBytes (n : Node) : Nat := 2 * n.inputs.length

/-- The header: the numbers of nodes and inputs, three words of progress, a state bit and an owner
for each slot, and the indices of the layer and the sample. -/
def header (plan : Plan) : Bytes :=
  let slots := plan.config.numSlots.toInt.toNat
  Wire.u16 plan.nodes.length ++ Wire.u16 plan.nInput ++ Wire.u16 0 ++ Wire.u16 0 ++ Wire.u16 0
    ++ (List.replicate slots (Wire.u16 0)).flatten
    ++ (List.replicate slots (Wire.i16 (-1))).flatten
    ++ Wire.u16 0 ++ Wire.u16 0

/-- A buffer with the node table behind it, the first node's inputs starting at byte `start`. -/
def nodes : Nat → List Node → ByteArray → ByteArray
  | _, [], buffer => buffer
  | start, n :: ns, buffer => nodes (start + inputBytes n) ns (extend buffer (node start n))

end Record

namespace Plan

/-- Is parameter `p` in its place and small enough for its record? -/
def checkParam (p : Param) (position : Nat) : Except ModelError Unit :=
  if p.id ≠ position then .error (.paramId p.name p.id position)
  else if dimsLen < p.dims.length then .error (.paramDims p.name p.dims.length)
  else .ok ()

/-- Is the node in its place? -/
def checkNodeId (nInput : Int) (n : Node) (position : Nat) : Except ModelError Unit :=
  if n.id ≠ nInput + position then .error (.nodeId n.name n.id position) else .ok ()

/-- Are ids dense, parameters first, then nodes in order? -/
def check (plan : Plan) : Except ModelError Unit := do
  if plan.params.length ≠ plan.nInput then
    throw (.paramCount plan.params.length plan.nInput)
  plan.params.zipIdx.forM fun (p, i) => checkParam p i
  plan.nodes.zipIdx.forM fun (n, i) => checkNodeId plan.nInput n i
  let ids := plan.nInput + plan.nodes.length
  if u16Max / 2 < ids then throw (.idCount ids)

/-- Does a node fit its record, its inputs starting at byte `start` of the index array? -/
def checkNode (start : Nat) (n : Node) : Except ModelError Unit :=
  if nodeNameLen ≤ n.name.length then .error (.nameLength n.name)
  else if u16Max < start then .error (.indexLength n.name)
  else if u16Max < n.maxOutputId then .error (.maxOutputId n.name n.maxOutputId)
  else match n.flags.check with
    | .error e => .error (.flags n.name e)
    | .ok () => .ok ()

/-- Does every node fit its record? -/
def checkNodes : Nat → List Node → Except ModelError Unit
  | _, [] => .ok ()
  | start, n :: ns =>
    match checkNode start n with
    | .error e => .error e
    | .ok () => checkNodes (start + Record.inputBytes n) ns

/-- The model section of a plan that was checked. -/
def modelBytes (plan : Plan) : ByteArray :=
  let buffer := Record.nodes 0 plan.nodes (extend .empty (Record.header plan))
  let buffer := plan.params.foldl (fun b p => extend b (Record.param p)) buffer
  let empty := Record.placeholder plan.config.scale.toInt
  let buffer := plan.nodes.foldl (fun b _ => extend b empty) buffer
  plan.nodes.foldl (fun b n => extend b (Record.inputs n)) buffer

/-- The model section. -/
def encode (plan : Plan) : Except ModelError ByteArray := do
  plan.check
  checkNodes 0 plan.nodes
  pure plan.modelBytes

end Plan
end NetImage
