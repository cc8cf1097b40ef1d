import NetImage.Build.Fault
import Std.Data.TreeMap

/-!
# NetImage.Build.Sources

The declarations of a graph by kind, each kind in the order of the graph. No two inputs and no two
constants have the same name; a constant that shares the name of an input supplies its data.
-/

namespace NetImage

/-- The declarations of a graph by kind. -/
structure Sources where
  inputs : List InputDecl
  consts : List ConstDecl
  ops : List OpDecl

namespace Sources

/-- The declarations seen so far, newest first, and the lines of the names seen. -/
structure Sorting where
  inputs : List InputDecl
  consts : List ConstDecl
  ops : List OpDecl
  inputLines : Std.TreeMap Bytes Int
  constLines : Std.TreeMap Bytes Int

/-- One declaration further. -/
def Sorting.step (s : Sorting) : Decl → Except Fault Sorting
  | .input d =>
    match s.inputLines[d.tensor]? with
    | some line => .error (.sameInput d.tensor line d.line)
    | none =>
      .ok { s with inputs := d :: s.inputs, inputLines := s.inputLines.insert d.tensor d.line }
  | .const d =>
    match s.constLines[d.tensor]? with
    | some line => .error (.sameConst d.tensor line d.line)
    | none =>
      .ok { s with consts := d :: s.consts, constLines := s.constLines.insert d.tensor d.line }
  | .op d => .ok { s with ops := d :: s.ops }

/-- Sorts the declarations of a graph, which must have an operator. -/
def ofDecls (decls : List Decl) : Except Fault Sources := do
  let s ← decls.foldlM Sorting.step ⟨[], [], [], ∅, ∅⟩
  if s.ops.isEmpty then throw .noOperators
  pure ⟨s.inputs.reverse, s.consts.reverse, s.ops.reverse⟩

end Sources
end NetImage
