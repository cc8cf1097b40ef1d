import NetImage.Build.Journal
import NetImage.Build.Sources

/-!
# NetImage.Build.Folding

Squeezes of constants. Such a squeeze changes the shape of its constant and is no operator of the
model; whoever reads its output reads the constant. A constant is squeezed at most once.
-/

namespace NetImage

/-- The squeezes of constants. -/
structure Folding where
  /-- The constants by name. -/
  consts : Std.TreeMap Bytes ConstDecl
  /-- For each squeezed constant, the line of the squeeze and the shape it leaves. -/
  squeezed : Std.TreeMap Bytes (Int × List Int64)
  /-- For the output of each folded squeeze, the constant. -/
  renamed : Std.TreeMap Bytes Bytes

namespace Folding

/-- No operator seen. -/
def start (consts : List ConstDecl) : Folding :=
  ⟨consts.foldl (fun m c => m.insert c.tensor c) ∅, ∅, ∅⟩

/-- One operator further. -/
def step (s : Folding) (op : OpDecl) : Traced Fault Folding :=
  match op.body with
  | .squeeze source target axes =>
    match s.consts[source]? with
    | none => pure s
    | some c =>
      match s.squeezed[c.tensor]? with
      | some (line, _) => Traced.ofExcept (.error (.squeezedAgain c.tensor line op.line))
      | none =>
        match NetImage.squeeze c.dims axes with
        | .error e => Traced.ofExcept (.error (.axis target op.line e))
        | .ok dims => do
          Traced.tell #[.squeezeFolded op.name c.tensor c.dims dims]
          pure { s with
            squeezed := s.squeezed.insert c.tensor (op.line, dims)
            renamed := s.renamed.insert target c.tensor }
  | _ => pure s

/-- The squeezes of constants in a graph. -/
def ofSources (g : Sources) : Traced Fault Folding := Traced.fold step (start g.consts) g.ops

/-- Is this operator the squeeze of a constant? -/
def isFolded (s : Folding) (op : OpDecl) : Bool :=
  match op.body with
  | .squeeze source _ _ => s.consts.contains source
  | _ => false

/-- The tensor that a name stands for. -/
def resolve (s : Folding) (tensor : Bytes) : Bytes := s.renamed.getD tensor tensor

/-- A constant in the shape that its squeeze leaves. -/
def reshape (s : Folding) (c : ConstDecl) : ConstDecl :=
  match s.squeezed[c.tensor]? with
  | some (_, dims) => { c with dims := dims }
  | none => c

end Folding
end NetImage
