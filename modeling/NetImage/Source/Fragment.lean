import NetImage.Bytes

/-!
# NetImage.Source.Fragment

Fragments of C source. A fragment is written behind whatever a buffer holds already. Ending a
statement looks back at the last byte of the buffer, but only where the statement has written one of
its own, so what stood in the buffer before has no part in it and a fragment means the same bytes
everywhere.

* `Fragment` — text, byte arrays, sequences and statement lists.
* `Fragment.emit` — a buffer with the fragment behind it.
* The rest builds the forms that C source is made of from these; what may be left out is an `Option`.
-/

namespace NetImage

/-- A fragment of C source. -/
inductive Fragment where
  | text (s : Bytes)
  /-- The body of a byte array: sixteen to a line, a comma after each. -/
  | bytes (data : Bytes)
  /-- One fragment after the other. -/
  | seq (parts : List Fragment)
  /-- Statements, each on lines of its own: a part that is empty is left out, one that ends a line is
  kept, and any other gets what it lacks of a semicolon and a line break. -/
  | stmts (parts : List Fragment)

namespace Fragment

/-- The bytes of an array from the `i`-th on. -/
def emitBytes : Nat → Bytes → ByteArray → ByteArray
  | _, [], buffer => buffer
  | i, b :: rest, buffer =>
    let gap : Bytes := if i % 16 = 0 then [] else [0x20]
    let stop : Bytes := if i % 16 = 15 ∨ rest.isEmpty then [0x2c, 0x0a] else [0x2c]
    let literal : Bytes := 0x30 :: 0x78 :: hexDigits 2 b.toNat
    emitBytes (i + 1) rest (extend (extend (extend buffer gap) literal) stop)

/-- What a statement lacks when `last` is its last byte. -/
def terminator (last : UInt8) : Bytes :=
  if last = 0x0a then []
  else if last = 0x7d ∨ last = 0x3b then [0x0a]
  else [0x3b, 0x0a]

/-- Ends the statement that was written behind `size` bytes. -/
def terminate (size : Nat) (buffer : ByteArray) : ByteArray :=
  if buffer.size ≤ size then buffer
  else extend buffer (terminator (buffer.get! (buffer.size - 1)))

mutual

/-- A buffer with the fragment behind it. -/
def emit : Fragment → ByteArray → ByteArray
  | .text s, buffer => extend buffer s
  | .bytes data, buffer => emitBytes 0 data buffer
  | .seq parts, buffer => emitSeq parts buffer
  | .stmts parts, buffer => emitStmts parts buffer

/-- A buffer with the fragments behind it. -/
def emitSeq : List Fragment → ByteArray → ByteArray
  | [], buffer => buffer
  | part :: parts, buffer => emitSeq parts (emit part buffer)

/-- A buffer with the statements behind it. -/
def emitStmts : List Fragment → ByteArray → ByteArray
  | [], buffer => buffer
  | part :: parts, buffer => emitStmts parts (terminate buffer.size (emit part buffer))

end

/-! ## Forms of C source -/

/-- A piece of text. -/
def word (s : String) : Fragment := .text (ascii s)

/-- The fragment, or nothing. -/
def maybe (part : Option Fragment) : Fragment := .seq part.toList

/-- The fragment behind a space, or nothing. -/
def maybeSpace (part : Option Fragment) : Fragment :=
  match part with
  | some part => .seq [word " ", part]
  | none => .seq []

/-- The fragments that are there with `sep` between neighbours. -/
def separated (sep : String) (parts : List (Option Fragment)) : Fragment :=
  .seq ((parts.filterMap id).intersperse (word sep))

def spaced (parts : List (Option Fragment)) : Fragment := separated " " parts

def commaSpaced (parts : List (Option Fragment)) : Fragment := separated ", " parts

/-- The fragments that are there, a comma and a line break after each. -/
def commaLines (parts : List (Option Fragment)) : Fragment :=
  .seq ((parts.filterMap id).map fun part => .seq [part, word ",\n"])

/-- The statements that are there. -/
def statements (parts : List (Option Fragment)) : Fragment := .stmts (parts.filterMap id)

def newline : Fragment := word "\n"
def uint8T : Fragment := word "uint8_t"
def uint16T : Fragment := word "uint16_t"
def void : Fragment := word "void"

def angleBracketed (s : Bytes) : Fragment := .seq [word "<", .text s, word ">"]
def doubleQuoted (s : Bytes) : Fragment := .seq [word "\"", .text s, word "\""]
def arrow (e : Fragment) (name : Bytes) : Fragment := .seq [e, word "->", .text name]
def assign (e₁ e₂ : Fragment) : Fragment := .seq [e₁, word " = ", e₂]
def block (inner : Option Fragment) : Fragment := .seq [word "\x7b\n", maybe inner, word "\x7d"]
def brace (inner : Option Fragment) : Fragment := .seq [word "\x7b", maybe inner, word "\x7d"]
def paren (inner : Option Fragment) : Fragment := .seq [word "(", maybe inner, word ")"]
def call (f : Fragment) (args : Option Fragment) : Fragment := .seq [f, paren args]
def elem (arr : Fragment) (index : Option Fragment) : Fragment :=
  .seq [arr, word "[", maybe index, word "]"]
def extern_ (rest : Fragment) : Fragment := .seq [word "extern ", rest]
def intLit (n : Int) : Fragment := .text (decimal n)
def param (type what : Fragment) : Fragment := .seq [type, word " ", what]
def ptr (what : Fragment) : Fragment := .seq [word "*", what]
def structTag (name : Bytes) : Fragment := .seq [word "struct ", .text name]

/-- An incomplete struct declaration. -/
def structDecl (name : Bytes) : Fragment := .seq [structTag name, word ";\n"]

/-- Line comments; an empty line has no space behind the slashes. -/
def comment (lines : List Bytes) : Fragment :=
  .seq (lines.map fun line =>
    if line.isEmpty then word "//\n" else .seq [word "// ", .text line, word "\n"])

/-- A preprocessor line. -/
def preprocessor (directive : Bytes) (rest : Option Fragment) : Fragment :=
  .seq [word "#", .text directive, maybeSpace rest, newline]

/-- An object-like macro. -/
def define (name : Bytes) (value : Option Fragment) : Fragment :=
  preprocessor (ascii "define") (some (spaced [some (.text name), value]))

def pragmaOnce : Fragment := preprocessor (ascii "pragma") (some (word "once"))

/-- A function declaration. -/
def funcDecl (type : Fragment) (name : Bytes) (params : Option Fragment) : Fragment :=
  .seq [type, word " ", call (.text name) params, word ";\n"]

/-- A function definition. -/
def funcDef (type : Fragment) (name : Bytes) (params body : Option Fragment) : Fragment :=
  .seq [spaced [some type, some (call (.text name) params), some (block body)], newline]

/-- A variable, with its initializer if it has one. -/
def var (type what : Fragment) (init : Option Fragment) : Fragment :=
  let value := match init with
    | some init => [word " = ", init]
    | none => []
  .seq ([type, word " ", what] ++ value ++ [word ";"])

end Fragment
end NetImage
