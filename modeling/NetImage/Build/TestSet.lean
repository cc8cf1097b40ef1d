import NetImage.Build.Parameters

/-!
# NetImage.Build.TestSet

The samples of a model in fixed point, one after the other, and their labels, each of one byte.
-/

namespace NetImage

/-- The samples of a model. -/
structure TestSet where
  bytes : ByteArray
  labels : List Int
  overflows : Nat

namespace TestSet

/-- The samples stored so far, with the labels newest first. -/
structure State where
  bytes : ByteArray
  labels : List Int
  count : Nat
  overflows : Nat

/-- Stores one sample. Its label is looked at last. -/
def State.add (scale : Int64) (s : State) (x : Sample) : Traced Fault State := do
  let q := Quantized.ofValues scale (x.data.map widen)
  Traced.tell q.reports.toArray
  if x.label < 0 ∨ 0xff < x.label then Traced.ofExcept (.error (.label s.count x.label))
  else
    pure
      { bytes := extend s.bytes q.bytes
        labels := x.label.toInt :: s.labels
        count := s.count + 1
        overflows := s.overflows + q.overflows }

/-- Stores the samples in order. -/
def ofSamples (scale : Int64) (samples : List Sample) : Traced Fault TestSet := do
  let s ← Traced.fold (State.add scale) ⟨.empty, [], 0, 0⟩ samples
  pure ⟨s.bytes, s.labels.reverse, s.overflows⟩

end TestSet
end NetImage
