import NetImage.Source.Fragment

/-!
# NetImage.Source.Sections

A header and its source, each collected in sections and joined at the end. Joining indents every line
by one tab for each brace that is open; lines for the preprocessor are never indented.
-/

namespace NetImage

/-- A section of the header or of the source, in the order they are joined. -/
abbrev Part := Fin 21

namespace Part

def hPragmaOnce : Part := 1
def hComment : Part := 2
def hInclude : Part := 3
def hStructs : Part := 4
def hConsts : Part := 5
def hProgress : Part := 6
def hOps : Part := 7
def hProtos : Part := 8
def hFlags : Part := 9
def hData : Part := 10
def cComment : Part := 13
def cInclude : Part := 14
def cExpected : Part := 15
def cHandlers : Part := 16
def cAllocators : Part := 17
def cInplace : Part := 18
def cData : Part := 19

/-- The number of sections of the header; the others are the source's. -/
def headerCount : Nat := 12

end Part

/-- The sections of a header and its source. -/
structure Sections where
  parts : Vector ByteArray 21

namespace Sections

/-- Nothing written. -/
def empty : Sections := ⟨Vector.replicate 21 .empty⟩

/-- The sections with a fragment at the end of one of them. -/
def append (s : Sections) (part : Part) (fragment : Fragment) : Sections :=
  ⟨s.parts.set part (fragment.emit s.parts[part])⟩

/-- The sections with fragments at the end of one of them. -/
def appendAll (s : Sections) (part : Part) (fragments : List Fragment) : Sections :=
  fragments.foldl (fun s f => s.append part f) s

/-- Where joining stands: the byte before, how many braces are open, and what was written. -/
structure Join where
  previous : UInt8
  depth : Nat
  written : ByteArray

/-- A buffer with `n` tabs behind it. -/
def tabs : Nat → ByteArray → ByteArray
  | 0, buffer => buffer
  | n + 1, buffer => tabs n (buffer.push 0x09)

/-- One byte further. -/
def Join.step (j : Join) (b : UInt8) : Join :=
  if b = 0x0a then
    { previous := b
      depth := if j.previous = 0x7b then j.depth + 1 else j.depth
      written := j.written.push b }
  else if j.previous = 0x0a then
    let depth := if b = 0x7d then j.depth - 1 else j.depth
    { previous := b
      depth := depth
      written := (if b = 0x23 then j.written else tabs depth j.written).push b }
  else { j with previous := b, written := j.written.push b }

/-- One section further; a line may go on in the next one. -/
def Join.part (j : Join) (part : ByteArray) : Join := part.data.toList.foldl Join.step j

/-- Some sections one after the other, with their lines indented. -/
def joined (parts : List ByteArray) : ByteArray :=
  (parts.foldl Join.part ⟨0x0a, 0, .empty⟩).written

/-- The header. -/
def header (s : Sections) : ByteArray := joined (s.parts.toList.take Part.headerCount)

/-- The source. -/
def source (s : Sections) : ByteArray := joined (s.parts.toList.drop Part.headerCount)

end Sections
end NetImage
