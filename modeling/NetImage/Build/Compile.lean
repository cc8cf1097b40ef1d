import NetImage.Build.Attributes
import NetImage.Build.Liveness
import NetImage.Build.TestSet
import NetImage.Graph.Parser
import NetImage.Model.Bundle

/-!
# NetImage.Build.Compile

From a graph to an image: the declarations are sorted, squeezes of constants folded, operators
expanded to steps, steps numbered, their lives and flags found, parameters and samples stored, and
everything is written behind the slots of the intermediate values.
-/

namespace NetImage

/-- A compiled model. -/
structure Compiled where
  plan : Plan
  bundle : Bundle
  image : Image
  /-- How many values were clamped with a report. -/
  overflows : Nat

namespace Compile

/-- The nodes of a plan. -/
def nodes (numbering : Numbering) (live : List Nat) (flags : List Flags) : List Node :=
  let nInput := numbering.params.length
  (numbering.steps.zip (live.zip flags)).zipIdx.map fun ((s, last, flags), i) =>
    { id := nInput + i
      name := s.step.name
      inputs := s.inputs.map Int.ofNat
      op := s.step.type
      flags := flags
      maxOutputId := last }

/-- The plan of a graph. -/
def plan (decls : List Decl) (samples : List Sample) (config : Config) (read : FileReader) :
    Traced Fault (Plan × Nat) := do
  let sources ← Traced.ofExcept (Sources.ofDecls decls)
  let folding ← Folding.ofSources sources
  let steps ← Step.ofSources sources folding
  let consts := sources.consts.map folding.reshape
  let numbering ← Traced.ofExcept (Numbering.ofSteps sources.inputs consts steps)
  let live := lastNeeded numbering.params.length numbering.steps
  let flags ← Traced.ofExcept (stepFlags steps)
  let params ← Parameters.place ⟨config, samples, read, Step.weights steps⟩ numbering.params
  let tests ← TestSet.ofSamples config.scale samples
  let plan : Plan :=
    { config := config
      nInput := numbering.params.length
      nodes := nodes numbering live flags
      params := params.records
      region1 := params.region1
      region2 := params.region2
      samples := tests.bytes
      labels := tests.labels }
  pure (plan, params.overflows + tests.overflows)

/-- The image of what is written for a plan. -/
def assemble (config : Config) (bundle : Bundle) : Except Fault Image :=
  (Image.assemble (config.numSlots * config.intermediateValuesSize) config.nvmSize
    (Stream.all.map bundle.stream)).mapError .image

end Compile

/-- Compiles the declarations of a graph. -/
def compileDecls (decls : List Decl) (samples : List Sample) (config : Config)
    (read : FileReader) : Traced Fault Compiled := do
  let (plan, overflows) ← Compile.plan decls samples config read
  let bundle ← Traced.ofExcept ((Bundle.ofPlan plan).mapError .model)
  let image ← Traced.ofExcept (Compile.assemble config bundle)
  Traced.tell #[.imageAssembled image.used image.bytes.size plan.nodes.length plan.nInput]
  pure ⟨plan, bundle, image, overflows⟩

/-- Why a text does not compile. -/
inductive CompileError where
  | parse (error : ParseError)
  | fault (fault : Fault)
  deriving DecidableEq, Repr

/-- The wording of an error. -/
def CompileError.message : CompileError → Bytes
  | .parse e => e.message
  | .fault f => f.message

/-- Compiles the text of a graph. -/
def compile (text : Bytes) (samples : List Sample) (config : Config) (read : FileReader) :
    Traced CompileError Compiled :=
  match parse text with
  | .error e => Traced.ofExcept (.error (.parse e))
  | .ok decls =>
    let r := compileDecls decls samples config read
    ⟨r.log, r.result.mapError .fault⟩

end NetImage
