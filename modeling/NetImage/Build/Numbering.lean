import NetImage.Build.Steps

/-!
# NetImage.Build.Numbering

Ids. Inputs come first, then the constants that supply no input, then the steps in order. A step may
only read what stands before it, and no tensor is written twice.
-/

namespace NetImage

/-- What has a parameter's id: an input that the samples feed, or a constant. -/
inductive ParamSource where
  | fed (input : InputDecl)
  | stored (const : ConstDecl)

/-- A step with ids for its sources. -/
structure NumberedStep where
  step : Step
  inputs : List Nat

/-- A graph with ids. The id of a step is the number of parameters plus its position. -/
structure Numbering where
  params : List ParamSource
  steps : List NumberedStep

namespace Numbering

/-- The parameters in the order of their ids. -/
def paramSources (inputs : List InputDecl) (consts : List ConstDecl) : List ParamSource :=
  let byName : Std.TreeMap Bytes ConstDecl := consts.foldl (fun m c => m.insert c.tensor c) ∅
  let names : Std.TreeSet Bytes := inputs.foldl (fun s i => s.insert i.tensor) ∅
  let supplied := inputs.map fun i =>
    match byName[i.tensor]? with
    | some c => ParamSource.stored c
    | none => .fed i
  supplied ++ (consts.filter fun c => !names.contains c.tensor).map .stored

/-- The id and the line of each tensor known so far. -/
abbrev Known := Std.TreeMap Bytes (Nat × Int)

/-- The parameters' ids and lines; a constant that supplies an input is known by the input's line. -/
def knownParams (inputs : List InputDecl) (consts : List ConstDecl) : Known :=
  let names := inputs.foldl (fun (m : Known) i => m.insert i.tensor (m.size, i.line)) ∅
  consts.foldl
    (fun m c => if m.contains c.tensor then m else m.insert c.tensor (m.size, c.line)) names

/-- The tensors that some step writes. -/
def written (steps : List Step) : Std.TreeSet Bytes :=
  steps.foldl (fun found s => found.insert s.target) ∅

/-- The id of a tensor that a step reads. -/
def lookup (written : Std.TreeSet Bytes) (known : Known) (line : Int) (tensor : Bytes) :
    Except Fault Nat :=
  match known[tensor]? with
  | some (id, _) => .ok id
  | none =>
    if written.contains tensor then .error (.consumedTooEarly tensor line)
    else .error (.neverProduced tensor line)

/-- Where numbering stands: the tensors known, the next id, and the steps, newest first. -/
structure State where
  known : Known
  next : Nat
  done : List NumberedStep

/-- One step further. -/
def State.step (written : Std.TreeSet Bytes) (s : State) (step : Step) : Except Fault State := do
  let inputs ← step.sources.mapM (lookup written s.known step.line)
  match s.known[step.target]? with
  | some (_, line) => throw (.producedAgain step.target line step.line)
  | none =>
    pure
      { known := s.known.insert step.target (s.next, step.line)
        next := s.next + 1
        done := ⟨step, inputs⟩ :: s.done }

/-- Numbers a graph. -/
def ofSteps (inputs : List InputDecl) (consts : List ConstDecl) (steps : List Step) :
    Except Fault Numbering := do
  let params := paramSources inputs consts
  let start : State := ⟨knownParams inputs consts, params.length, []⟩
  let s ← steps.foldlM (State.step (written steps)) start
  pure ⟨params, s.done.reverse⟩

end Numbering
end NetImage
