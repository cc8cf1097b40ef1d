import NetImage.Model.Record
import NetImage.Source.DataFiles

/-!
# NetImage.Model.Bundle

What is written for a plan: the six streams of the image, the two source files and the list of labels.
-/

namespace NetImage

/-- The sections of an image. -/
inductive Stream where
  | parameters
  | parameters2
  | samples
  | model
  | labels
  | counters
  deriving DecidableEq, Repr

namespace Stream

/-- Every stream, in the order of the image. -/
def all : List Stream := [.parameters, .parameters2, .samples, .model, .labels, .counters]

def name : Stream → Bytes
  | .parameters => ascii "parameters"
  | .parameters2 => ascii "parameters2"
  | .samples => ascii "samples"
  | .model => ascii "model"
  | .labels => ascii "labels"
  | .counters => ascii "counters"

end Stream

/-- What is written for a plan. -/
structure Bundle where
  stream : Stream → ByteArray
  header : ByteArray
  source : ByteArray
  /-- The labels in decimal with spaces between them. -/
  listing : Bytes

namespace Bundle

/-- The size of the runtime's counters. -/
def countersBytes : Nat := 4 * countersLen + 2

/-- The streams of a plan whose model section is `model`. -/
def streamOf (plan : Plan) (model labels : ByteArray) : Stream → ByteArray
  | .parameters => plan.region1
  | .parameters2 => plan.region2
  | .samples => plan.samples
  | .model => model
  | .labels => labels
  | .counters => extendZeros countersBytes .empty

/-- The part of a stream that belongs to the first of `n` samples. -/
def firstOf (n : Nat) (all : ByteArray) : ByteArray :=
  if n = 0 then .empty else all.extract 0 (all.size / n)

/-- The byte arrays of the source: whole streams, then the first sample and its label. -/
def dataVars (stream : Stream → ByteArray) (n : Nat) : List DataVar :=
  let var := fun (s : Stream) (data : ByteArray) => DataVar.mk (s.name ++ ascii "_data") data
  [var .parameters (stream .parameters), var .parameters2 (stream .parameters2),
   var .model (stream .model), var .counters (stream .counters),
   var .samples (firstOf n (stream .samples)), var .labels (firstOf n (stream .labels))]

/-- Writes a plan. -/
def ofPlan (plan : Plan) : Except ModelError Bundle := do
  let model ← plan.encode
  let labels := plan.labels.foldl (fun b label => extend b (Wire.u8 label)) .empty
  let stream := streamOf plan model labels
  let sections := DataFiles.sections plan.config (dataVars stream plan.labels.length)
  pure
    { stream := stream
      header := sections.header
      source := sections.source
      listing := Bytes.join (ascii " ") (plan.labels.map decimal) }

end Bundle
end NetImage
