import NetImage.Graph.Grammar

/-!
# NetImage.Graph.Printer

Writing declarations in the graph language, each on a line of its own: the head, then every field with
its value.

* `FieldKind.write` — the text of a value.
* `Decl.print?` — the line of a declaration, if the language has one for it.
* `print?` — a graph.
-/

namespace NetImage

namespace FieldKind

/-- The texts with `sep` between them. -/
def writeList (sep : String) (texts : List Bytes) : Bytes := Bytes.join (ascii sep) texts

def writeInts (sep : String) (ns : List Int64) : Bytes :=
  writeList sep (ns.map fun n => decimal n.toInt)

/-- The text of a value. -/
def write : (kind : FieldKind) → kind.Val → Bytes
  | .ident, s => s
  | .name, s => s
  | .optIdent, s => s.getD (ascii "-")
  | .size, n => decimal n.toInt
  | .int, n => decimal n.toInt
  | .identList, names => writeList "," names
  | .intList, ns => writeInts "," ns
  | .dims, ns => writeInts "x" ns
  | .data, .inline values => writeList "," values
  | .data, .file path => ascii "@" ++ path
  | .elementType, t => t.name
  | .autoPad, p => p.name

end FieldKind

/-- The heads of operators without attributes, by type. -/
def Head.plain : List (OpType × Head) :=
  [(.add, .add), (.convMerge, .convMerge), (.globalAveragePool, .globalAveragePool),
   (.matMul, .matMul), (.relu, .relu), (.reshape, .reshape), (.softmax, .softmax),
   (.transpose, .transpose)]

namespace OpBody

/-- The head that declares an operator. -/
def head? : OpBody → Option Head
  | .plain type _ _ => Head.plain.lookup type
  | .concat .. => some .concat
  | .conv .. => some .conv
  | .dropout .. => some .dropout
  | .maxPool .. => some .maxPool
  | .squeeze .. => some .squeeze

/-- The texts of an operator's fields behind its name. -/
def texts : OpBody → List Bytes
  | .plain _ sources targets => sources ++ targets
  | .concat sources target axis =>
    [FieldKind.identList.write sources, target, FieldKind.int.write axis]
  | .conv source weights bias target strides pad =>
    [source, weights, FieldKind.optIdent.write bias, target, FieldKind.intList.write strides,
     pad.name]
  | .dropout source target mask => [source, target, FieldKind.optIdent.write mask]
  | .maxPool source target kernel strides pad =>
    [source, target, FieldKind.intList.write kernel, FieldKind.intList.write strides, pad.name]
  | .squeeze source target axes => [source, target, FieldKind.intList.write axes]

end OpBody

namespace Decl

/-- The head of a declaration. -/
def head? : Decl → Option Head
  | .input _ => some .input
  | .const _ => some .const
  | .op d => d.body.head?

/-- The texts of a declaration's fields, in order. -/
def texts : Decl → List Bytes
  | .input d =>
    [d.tensor, FieldKind.size.write d.channels, FieldKind.size.write d.height,
     FieldKind.size.write d.width]
  | .const d =>
    [d.tensor, d.type.name, FieldKind.dims.write d.dims, FieldKind.data.write d.data]
  | .op d => d.name :: d.body.texts

/-- The line of a declaration, if the language has one for it. -/
def print? (d : Decl) : Option Bytes := do
  let head ← d.head?
  let fields := head.fields.zipWith (fun f text => ascii " " ++ f.label ++ ascii "=" ++ text) d.texts
  if head.fields.length = d.texts.length then some (head.name ++ fields.flatten ++ ascii "\n")
  else none

end Decl

/-- The text of a graph, if the language has a line for each of its declarations. -/
def print? (decls : List Decl) : Option Bytes := (decls.mapM Decl.print?).map List.flatten

end NetImage
