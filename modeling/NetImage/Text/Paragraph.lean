import NetImage.Text.Blank

/-!
# NetImage.Text.Paragraph

Filling a paragraph. A paragraph is an empty line followed by lines that each start with the indent
and hold as many runes as fit; a line ends at white space only, so a word that is too long stands
alone. The first byte of the white space at which a line ends is dropped.
-/

namespace NetImage
namespace Paragraph

/-- The column at which every line must have ended. -/
def width : Nat := 80

/-- One line of a text. -/
def line (indent text : Bytes) : Bytes := indent ++ text ++ [0x0a]

/-- A line being filled. `head` is what stands before its last blank and `headCount` how many runes
that is; `tail` is the rest, from that blank on, with its bytes in reverse; `count` is the number of
runes in both. `finished` holds the lines before it, newest first. -/
structure Fill where
  head : Bytes
  headCount : Nat
  tail : Bytes
  count : Nat
  finished : List Bytes

/-- Ends the line at its last blank if it has grown too long and has one. -/
def Fill.endLine (fit : Int) (f : Fill) : Fill :=
  if fit < f.count ∧ f.headCount ≠ 0 then
    { head := [], headCount := 0, tail := f.tail.dropLast, count := f.count - (f.headCount + 1)
      finished := f.head :: f.finished }
  else f

/-- One rune further. -/
def Fill.step (fit : Int) (f : Fill) (r : Rune) : Fill :=
  let f :=
    if isBlank r.code then
      let f := f.endLine fit
      { f with head := f.head ++ f.tail.reverse, headCount := f.count, tail := [] }
    else f
  { f with tail := r.bytes.reverse ++ f.tail, count := f.count + 1 }

/-- The lines once the text has ended, in order. -/
def Fill.close (fit : Int) (f : Fill) : List Bytes :=
  let f := f.endLine fit
  let last := if f.count = 0 then [] else [f.head ++ f.tail.reverse]
  f.finished.reverse ++ last

/-- The lines of a text, without indent, each of at most `fit` runes if it has a place to end. -/
def pieces (fit : Int) (text : Bytes) : List Bytes :=
  ((runes text).foldl (Fill.step fit) ⟨[], 0, [], 0, []⟩).close fit

end Paragraph

/-- A paragraph of the text, every line behind the indent. -/
def paragraph (indent text : Bytes) : Bytes :=
  0x0a :: (Paragraph.pieces (Paragraph.width - indent.length) text).flatMap (Paragraph.line indent)

end NetImage
