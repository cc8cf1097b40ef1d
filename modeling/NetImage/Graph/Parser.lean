import NetImage.Graph.Grammar
import NetImage.Text.Blank

/-!
# NetImage.Graph.Parser

Reading a graph. Line breaks mean nothing to the grammar: a text is the sequence of its tokens, and
lines only number the declarations and the errors. A text that is not empty must end a line.

* `Parser.step` — one token further, or the first error.
* `parseTokens` — all tokens, which must not stop inside a declaration.
* `parse` — a text.
-/

namespace NetImage

/-- Why a text is no graph. -/
inductive ParseError where
  | noFinalNewline
  | unknownHead (line : Nat)
  | expectedField (line : Nat) (label sample : Bytes)
  | badValue (line : Nat) (label : Bytes) (error : ValueError)
  | badCount (line : Nat) (error : CountError)
  deriving DecidableEq, Repr

/-- What is said of the line, for errors that have one. -/
def ParseError.located (line : Nat) (what : Bytes) : Bytes :=
  ascii "parse failed: line " ++ decimalNat line ++ ascii ": " ++ what

/-- The wording of an error. -/
def ParseError.message : ParseError → Bytes
  | .noFinalNewline => ascii "parse failed: expected final newline"
  | .unknownHead line => located line (alternatives (Head.all.map Head.name))
  | .expectedField line label sample =>
    located line (ascii "expected " ++ label ++ ascii "=" ++ sample ++ ascii " (for example)")
  | .badValue line label error => located line (label ++ ascii ": " ++ error.message)
  | .badCount line error => located line error.message

namespace Parser

/-- A declaration that lacks `field` and the fields behind it. -/
structure Pending where
  line : Nat
  field : Field
  rest : List Field
  next : field.kind.Val → FromFields (Except CountError Decl) rest

/-- Where parsing stands: the declarations read, newest first, and the one begun, if any. -/
structure State where
  done : List Decl
  pending : Option Pending

/-- No token read. -/
def State.start : State := ⟨[], none⟩

/-- Continues behind a head or a field, where `fields` are lacking. -/
def advance (done : List Decl) (line : Nat) :
    (fields : List Field) → FromFields (Except CountError Decl) fields → Except ParseError State
  | [], .ok decl => .ok ⟨decl :: done, none⟩
  | [], .error e => .error (.badCount line e)
  | field :: rest, next => .ok ⟨done, some ⟨line, field, rest, next⟩⟩

/-- One token further. -/
def step (s : State) (t : Token) : Except ParseError State :=
  match s.pending with
  | none =>
    match Head.ofName? t.bytes with
    | none => .error (.unknownHead t.line)
    | some head => advance s.done t.line head.fields (head.build t.line)
  | some p =>
    match t.bytes.cut 0x3d with
    | none => .error (.expectedField t.line p.field.label p.field.sample)
    | some (label, text) =>
      if label = p.field.label then
        match p.field.kind.read text with
        | .error e => .error (.badValue t.line p.field.label e)
        | .ok value => advance s.done p.line p.rest (p.next value)
      else .error (.expectedField t.line p.field.label p.field.sample)

/-- The declarations read, once there are no more tokens; `lastLine` is where the text ends. -/
def finish (lastLine : Nat) (s : State) : Except ParseError (List Decl) :=
  match s.pending with
  | none => .ok s.done.reverse
  | some p => .error (.expectedField lastLine p.field.label p.field.sample)

end Parser

/-- The declarations that the tokens make. -/
def parseTokens (lastLine : Nat) (ts : List Token) : Except ParseError (List Decl) :=
  ts.foldlM Parser.step Parser.State.start >>= Parser.finish lastLine

/-- The declarations of a graph. -/
def parse (text : Bytes) : Except ParseError (List Decl) :=
  match text.getLast? with
  | none => .ok []
  | some last =>
    if last = 0x0a then parseTokens (text.count 0x0a + 1) (tokens text)
    else .error .noFinalNewline

end NetImage
