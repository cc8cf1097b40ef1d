import NetImage.Text.Rune

/-!
# NetImage.Text.Blank

White space and what it separates.

* `isBlank` — the code points with the Unicode property `White_Space`.
* `tokens` — the maximal runs of other runes, each with the line it stands on.
* `fields`, `trim` — the same runs without lines, and a string without blanks at either end.
-/

namespace NetImage

/-- Is this code point white space? -/
def isBlank (code : Nat) : Bool :=
  (0x09 ≤ code && code ≤ 0x0d) || code == 0x20 || code == 0x85 || code == 0xa0 || code == 0x1680
    || (0x2000 ≤ code && code ≤ 0x200a) || code == 0x2028 || code == 0x2029 || code == 0x202f
    || code == 0x205f || code == 0x3000

/-- The code point that ends a line. -/
def lineFeed : Nat := 0x0a

/-- A maximal run of runes that are not white space, and the number of the line it stands on. -/
structure Token where
  line : Nat
  bytes : Bytes
  deriving DecidableEq, Repr

namespace Token

/-- Where a scan stands: the line, the run being read with its bytes in reverse, and the finished
runs, newest first. -/
structure Scan where
  line : Nat
  current : Bytes
  done : List Token

/-- The finished runs once the current one, if any, has ended. -/
def Scan.close (s : Scan) : List Token :=
  if s.current.isEmpty then s.done else ⟨s.line, s.current.reverse⟩ :: s.done

/-- One rune further. -/
def Scan.step (s : Scan) (r : Rune) : Scan :=
  if isBlank r.code then
    { line := if r.code = lineFeed then s.line + 1 else s.line, current := [], done := s.close }
  else { s with current := r.bytes.reverse ++ s.current }

end Token

/-- The tokens of a string whose first line has number `line`. -/
def tokensOf (line : Nat) (rs : List Rune) : List Token :=
  (rs.foldl Token.Scan.step ⟨line, [], []⟩).close.reverse

/-- The tokens of a text, lines counted from one. -/
def tokens (s : Bytes) : List Token := tokensOf 1 (runes s)

/-- The runs of a string between white space. -/
def fields (s : Bytes) : List Bytes := (tokens s).map Token.bytes

/-- A string without white space at its start and its end. -/
def trim (s : Bytes) : Bytes :=
  let blank := fun r : Rune => isBlank r.code
  (((runes s).dropWhile blank).reverse.dropWhile blank).reverse.flatMap Rune.bytes

end NetImage
