import NetImage.Graph.Grammar
import NetImage.Text.Paragraph

/-!
# NetImage.Graph.Manual

The documentation of the graph language, made from its grammar.
-/

namespace NetImage
namespace Manual

def indent : Bytes := ascii "    "

def intro : String :=
  "A graph is one declaration per line: a head followed by every segment "
    ++ "of that head, in order, each written as Label=Value. "
    ++ "Operators run in declaration order, so a tensor must be produced before it is consumed. "
    ++ "The runtime's operator table follows the order below."

/-- A head with its fields as they are written, then what it and each of them means. -/
def entry (h : Head) : Bytes :=
  ascii "\n----\n\n" ++ h.name ++ ascii "\n"
    ++ h.fields.flatMap (fun f => indent ++ f.label ++ ascii "=" ++ f.sample ++ ascii "\n")
    ++ paragraph [] (ascii h.doc)
    ++ h.fields.flatMap fun f => paragraph indent (f.label ++ ascii "= " ++ f.doc)

end Manual

/-- The whole documentation. -/
def manual : Bytes :=
  paragraph [] (ascii Manual.intro) ++ ascii "\n"
    ++ OpType.table.flatMap (fun info => Paragraph.line Manual.indent info.name)
    ++ Head.all.flatMap Manual.entry

end NetImage
