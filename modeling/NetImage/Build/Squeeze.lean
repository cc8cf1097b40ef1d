import NetImage.Bytes

/-!
# NetImage.Build.Squeeze

Dropping axes of size one from a shape. A negative axis counts from the last. Axes may repeat and come
in any order; the first that is wrong is reported.
-/

namespace NetImage

/-- Why an axis cannot be dropped. -/
inductive AxisError where
  | range (axis : Int64) (dims : Nat)
  | size (axis : Int64) (dim : Int64)
  deriving DecidableEq, Repr

/-- The wording of an error. -/
def AxisError.message : AxisError → Bytes
  | .range axis dims =>
    ascii "axis " ++ decimal axis.toInt ++ ascii " out of range for " ++ decimal dims ++ ascii " dims"
  | .size axis dim =>
    ascii "axis " ++ decimal axis.toInt ++ ascii " has size " ++ decimal dim.toInt

namespace Squeeze

/-- The position that an axis of a shape with `n` dims names, if there is one. -/
def position? (n : Nat) (axis : Int64) : Option Nat :=
  let i := if axis.toInt < 0 then axis.toInt + n else axis.toInt
  if 0 ≤ i ∧ i < n then some i.toNat else none

/-- The position of an axis that can be dropped. -/
def drop (dims : List Int64) (axis : Int64) : Except AxisError Nat :=
  match position? dims.length axis with
  | none => .error (.range axis dims.length)
  | some i =>
    let dim := dims.getD i 1
    if dim = 1 then .ok i else .error (.size axis dim)

end Squeeze

/-- A shape without the given axes. -/
def squeeze (dims axes : List Int64) : Except AxisError (List Int64) := do
  let dropped ← axes.mapM (Squeeze.drop dims)
  pure ((dims.zipIdx.filter fun (_, i) => !dropped.contains i).map Prod.fst)

end NetImage
