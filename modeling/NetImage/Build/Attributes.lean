import NetImage.Build.Steps

/-!
# NetImage.Build.Attributes

The flags of each step. A convolution has a stride and may be unpadded, a pooling has a kernel and a
stride, and a pooling right before a reshape changes its layout.
-/

namespace NetImage
namespace Attributes

/-- The first entry of a list, or zero. -/
def firstOf (xs : List Int64) : Int := (xs.headD 0).toInt

/-- The flags that a step has by itself. -/
def ofBody : Option OpBody → Flags
  | some (.conv _ _ _ _ strides pad) => { stride := firstOf strides, autoPadValid := pad = .valid }
  | some (.maxPool _ _ kernel strides _) =>
    { kernelSize := firstOf kernel, stride := firstOf strides }
  | _ => {}

/-- Do the flags of a step fit? -/
def check (s : Step) : Except Fault Unit :=
  match (ofBody s.body).check with
  | .ok () => .ok ()
  | .error e => .error (.flags s.name s.line e)

/-- Marks the newest of the steps so far, which stand with their types and newest first: a pooling
changes its layout when a reshape follows. -/
def mark (type : OpType) : List (OpType × Flags) → List (OpType × Flags)
  | [] => []
  | (previous, flags) :: done =>
    (previous, if previous == .maxPool && type == .reshape then { flags with nhwcToNchw := true }
      else flags) :: done

/-- One step further. -/
def step (done : List (OpType × Flags)) (s : Step) : Except Fault (List (OpType × Flags)) := do
  check s
  pure ((s.type, ofBody s.body) :: mark s.type done)

end Attributes

/-- The flags of each step. -/
def stepFlags (steps : List Step) : Except Fault (List Flags) := do
  let done ← steps.foldlM Attributes.step []
  pure (done.reverse.map Prod.snd)

end NetImage
