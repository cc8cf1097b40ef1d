import NetImage.Build.Folding
import Std.Data.TreeSet

/-!
# NetImage.Build.Steps

The operators of the model, in order. Squeezes of constants are gone, every operator has one output,
and each convolution is followed by the step that merges its channel tiles: the convolution writes to
a tensor of its own, which the merge reads.
-/

namespace NetImage

/-- An operator of the model. -/
structure Step where
  line : Int
  name : Bytes
  type : OpType
  sources : List Bytes
  target : Bytes
  /-- The declaration it came from, unless the compiler added it. -/
  body : Option OpBody

namespace Step

/-- The tensor between a convolution and its merge. -/
def beforeMerge (tensor : Bytes) : Bytes := tensor ++ ascii "_before_merge"

/-- The name of the merge of a convolution. -/
def mergeName (name : Bytes) : Bytes := name ++ ascii ":merge"

/-- The outputs that count; a dropout's mask does not. -/
def outputs : OpBody → List Bytes
  | .dropout _ target _ => [target]
  | body => body.targets

/-- The steps that an operator with the given output becomes. -/
def ofOp (folding : Folding) (op : OpDecl) (target : Bytes) : List Step :=
  let sources := op.body.sources.map folding.resolve
  if op.body.type = .conv then
    let between := beforeMerge target
    [⟨op.line, op.name, .conv, sources, between, some op.body⟩,
     ⟨op.line, mergeName op.name, .convMerge, [between], target, none⟩]
  else [⟨op.line, op.name, op.body.type, sources, target, some op.body⟩]

/-- The steps of one operator. -/
def expand (folding : Folding) (op : OpDecl) : Except Fault (List Step) :=
  match outputs op.body with
  | [target] => .ok (if folding.isFolded op then [] else ofOp folding op target)
  | targets => .error (.outputs op.name op.line targets.length)

/-- The steps of a graph. -/
def ofSources (g : Sources) (folding : Folding) : Traced Fault (List Step) := do
  let steps ← Traced.ofExcept (g.ops.mapM (expand folding))
  let steps := steps.flatten
  Traced.tell #[.graphNormalized g.ops.length steps.length folding.renamed.size]
  pure steps

/-- The tensors that some convolution reads as its weights. -/
def weights (steps : List Step) : Std.TreeSet Bytes :=
  steps.foldl
    (fun found s =>
      if s.type = .conv then
        match s.sources with
        | _ :: w :: _ => found.insert w
        | _ => found
      else found)
    ∅

end Step
end NetImage
