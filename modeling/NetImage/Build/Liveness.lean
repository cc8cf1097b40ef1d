import NetImage.Build.Numbering

/-!
# NetImage.Build.Liveness

How long the output of each step is needed. An output lives until the last step that reads it; a
source of a concatenation lives as long as the concatenation does, since it is read in place. This
reaches through one concatenation only.
-/

namespace NetImage
namespace Liveness

/-- Raises the last use of every source that is a step, where steps start at id `nInput`. -/
def raise (nInput : Nat) (last : Nat) (live : Array Nat) (inputs : List Nat) : Array Nat :=
  inputs.foldl
    (fun live id => if id < nInput then live else live.modify (id - nInput) (max last)) live

/-- The last use of each step by a step that reads it. -/
def lastUses (nInput : Nat) (steps : List NumberedStep) : Array Nat :=
  (steps.foldl
    (fun (s : Array Nat × Nat) step => (raise nInput s.2 s.1 step.inputs, s.2 + 1))
    (Array.replicate steps.length 0, nInput)).1

/-- Lets the sources of each concatenation live as long as it does. -/
def throughConcats (nInput : Nat) (steps : List NumberedStep) (live : Array Nat) : Array Nat :=
  (steps.foldl
    (fun (s : Array Nat × Nat) step =>
      let live :=
        if step.step.type = .concat then raise nInput (s.1.getD s.2 0) s.1 step.inputs else s.1
      (live, s.2 + 1))
    (live, 0)).1

end Liveness

/-- The last id that needs the output of each step, or zero. -/
def lastNeeded (nInput : Nat) (steps : List NumberedStep) : List Nat :=
  (Liveness.throughConcats nInput steps (Liveness.lastUses nInput steps)).toList

end NetImage
