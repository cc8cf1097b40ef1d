import NetImage.Model.Record
import NetImage.Proofs.Wire

/-!
# NetImage.Proofs.Model.Reader

The model section as the runtime reads it. All positions follow from the number of intermediate value
slots and the two counts in the header: the node table stands behind the header, then the records of
the parameters, the records of the nodes' outputs, and the array of input ids.

* `NodeRecord.read`, `ParamRecord.read`: the fields of one record.
* `ModelSection`: a section with its numbers and records.
-/

namespace NetImage

/-- The size of a node record. -/
def nodeBytes : Nat := 64

/-- The size of a parameter record. -/
def paramBytes : Nat := 28

/-- A node record. -/
structure NodeRecord where
  name : Bytes
  inputCount : Nat
  /-- Where the node's inputs start in the array of input ids, in bytes. -/
  inputStart : Nat
  maxOutputId : Nat
  op : Nat
  flags : Nat
  deriving DecidableEq, Repr

/-- The fields of a node record. The name ends at the first zero byte. -/
def NodeRecord.read (r : Bytes) : NodeRecord where
  name := (r.slice 0 nodeNameLen).takeWhile (· != 0)
  inputCount := Wire.numberAt r 54 2
  inputStart := Wire.numberAt r 56 2
  maxOutputId := Wire.numberAt r 58 2
  op := Wire.numberAt r 60 2
  flags := Wire.numberAt r 62 2

/-- A parameter record. -/
structure ParamRecord where
  offset : Nat
  length : Nat
  bitWidth : Nat
  slot : Nat
  tileC : Nat
  dims : List Nat
  scale : Nat
  deriving DecidableEq, Repr

/-- The fields of a parameter record. -/
def ParamRecord.read (r : Bytes) : ParamRecord where
  offset := Wire.numberAt r 0 4
  length := Wire.numberAt r 4 4
  bitWidth := Wire.numberAt r 8 1
  slot := Wire.numberAt r 9 1
  tileC := Wire.numberAt r 10 2
  dims := (List.range dimsLen).map fun i => Wire.numberAt r (12 + 2 * i) 2
  scale := Wire.numberAt r 24 2

/-- A model section for a runtime with the given number of intermediate value slots. -/
structure ModelSection where
  numSlots : Nat
  bytes : Bytes

namespace ModelSection

/-- The section of a plan. -/
def ofPlan (plan : Plan) (bytes : ByteArray) : ModelSection :=
  ⟨plan.config.numSlots.toInt.toNat, bytes.data.toList⟩

variable (m : ModelSection)

def nodeCount : Nat := Wire.numberAt m.bytes 0 2

def nInput : Nat := Wire.numberAt m.bytes 2 2

/-- The state word of a slot. -/
def slotState (i : Nat) : Nat := Wire.numberAt m.bytes (10 + 2 * i) 2

/-- The node that owns a slot. -/
def slotOwner (i : Nat) : Nat := Wire.numberAt m.bytes (10 + 2 * m.numSlots + 2 * i) 2

/-- Where the node table starts: behind five words, two words for each slot, and two more words. -/
def nodesStart : Nat := (5 + 2 * m.numSlots + 2) * 2

def paramsStart : Nat := m.nodesStart + nodeBytes * m.nodeCount

def outputsStart : Nat := m.paramsStart + paramBytes * m.nInput

/-- Where the array of input ids starts. -/
def indexStart : Nat := m.outputsStart + paramBytes * m.nodeCount

/-- Record `i` of a table that starts at `start`, each record having `width` bytes. -/
def record (start width i : Nat) : Bytes :=
  m.bytes.slice (start + width * i) (start + width * (i + 1))

def node (i : Nat) : NodeRecord := .read (m.record m.nodesStart nodeBytes i)

def param (i : Nat) : ParamRecord := .read (m.record m.paramsStart paramBytes i)

/-- The record of the output of a node. -/
def output (i : Nat) : ParamRecord := .read (m.record m.outputsStart paramBytes i)

/-- Entry `j` behind byte `start` of the array of input ids. -/
def entry (start j : Nat) : Nat := Wire.numberAt m.bytes (m.indexStart + start + 2 * j) 2

end ModelSection
end NetImage
