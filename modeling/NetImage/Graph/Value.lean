import NetImage.Graph.Declaration
import NetImage.Number.Integer

/-!
# NetImage.Graph.Value

The values that stand behind `=` in a declaration: what each kind of value means, which texts are
accepted, and what is said about the others.

* `Pattern` — the token classes that values are made of.
* `FieldKind.Val` — the meaning of a value, by kind.
* `FieldKind.read` — from the text to the meaning.
-/

namespace NetImage

def isLetter (b : UInt8) : Bool := (0x61 ≤ b && b ≤ 0x7a) || (0x41 ≤ b && b ≤ 0x5a)

/-- A class of texts. -/
inductive Pattern where
  /-- A letter or underscore, then letters, digits and underscores. -/
  | ident
  /-- As `ident`, but points, colons, slashes and dashes may follow too. -/
  | name
  /-- A positive integer without leading zeros. -/
  | size
  /-- An integer without leading zeros. -/
  | int
  /-- An integer with an optional fraction and an optional exponent. -/
  | float
  deriving DecidableEq, Repr

namespace Pattern

/-- The class as a regular expression, the form in which it is shown. -/
def text : Pattern → String
  | .ident => "^[a-zA-Z_][a-zA-Z0-9_]*$"
  | .name => "^[a-zA-Z_][a-zA-Z0-9_.:/-]*$"
  | .size => "^[1-9][0-9]*$"
  | .int => "^-?(0|[1-9][0-9]*)$"
  | .float => "^-?(0|[1-9][0-9]*)(\\.[0-9]+)?([eE][-+]?[0-9]+)?$"

/-- A text without its minus sign. -/
def unsigned : Bytes → Bytes
  | 0x2d :: s => s
  | s => s

/-- What follows a zero, or digits of which the first is not zero. -/
def afterNat : Bytes → Option Bytes
  | 0x30 :: s => some s
  | b :: s => if isDigit b then some (s.dropWhile isDigit) else none
  | [] => none

/-- What follows one or more digits. -/
def afterDigits : Bytes → Option Bytes
  | b :: s => if isDigit b then some (s.dropWhile isDigit) else none
  | [] => none

/-- What follows an optional fraction. -/
def afterFraction : Bytes → Option Bytes
  | 0x2e :: s => afterDigits s
  | s => some s

/-- What follows an optional exponent. -/
def afterExponent : Bytes → Option Bytes
  | b :: s =>
    if b = 0x65 ∨ b = 0x45 then
      match s with
      | 0x2d :: s => afterDigits s
      | 0x2b :: s => afterDigits s
      | s => afterDigits s
    else some (b :: s)
  | [] => some []

/-- A letter or underscore, then bytes that `more` allows beside letters, digits and underscores. -/
def word (more : UInt8 → Bool) : Bytes → Bool
  | b :: s =>
    (isLetter b || b == 0x5f) && s.all fun b => isLetter b || isDigit b || b == 0x5f || more b
  | [] => false

/-- Is the text of this class? -/
def accepts : Pattern → Bytes → Bool
  | .ident, s => word (fun _ => false) s
  | .name, s => word (fun b => b == 0x2e || b == 0x3a || b == 0x2f || b == 0x2d) s
  | .size, 0x30 :: _ => false
  | .size, s => afterNat s == some []
  | .int, s => afterNat (unsigned s) == some []
  | .float, s =>
    ((afterNat (unsigned s)).bind afterFraction |>.bind afterExponent) == some []

end Pattern

/-- Why a value was refused. -/
inductive ValueError where
  | gap
  | noMatch (pattern : Pattern)
  | rejected
  | number (error : NumberError)
  | expected (choices : List Bytes)
  deriving DecidableEq, Repr

/-- The choices with `or` between them. -/
def alternatives (choices : List Bytes) : Bytes :=
  ascii "expected " ++ Bytes.join (ascii " or ") choices

/-- The wording of a refusal. -/
def ValueError.message : ValueError → Bytes
  | .gap => ascii "unexpected gap after ="
  | .noMatch pattern => ascii "does not match " ++ ascii pattern.text
  | .rejected => ascii "rejected"
  | .number error => error.message
  | .expected choices => alternatives choices

/-- The kinds of values. -/
inductive FieldKind where
  | ident
  | name
  /-- An identifier, or a dash for none. -/
  | optIdent
  /-- A positive integer below 65536. -/
  | size
  | int
  | identList
  | intList
  /-- At most six sizes joined by `x`. -/
  | dims
  | data
  | elementType
  | autoPad
  deriving DecidableEq, Repr

namespace FieldKind

/-- What a value of this kind means. -/
abbrev Val : FieldKind → Type
  | .ident => Bytes
  | .name => Bytes
  | .optIdent => Option Bytes
  | .size => Int64
  | .int => Int64
  | .identList => List Bytes
  | .intList => List Int64
  | .dims => List Int64
  | .data => ConstData
  | .elementType => ElementType
  | .autoPad => AutoPad

/-- The texts of a kind with few values. -/
def choices : FieldKind → List Bytes
  | .elementType => ElementType.all.map ElementType.name
  | .autoPad => AutoPad.all.map AutoPad.name
  | _ => []

/-- The bound that sizes stay below. -/
def sizeBound : Int64 := 65536

/-- How many sizes a shape may have. -/
def maxDims : Nat := 6

def checked (pattern : Pattern) (s : Bytes) : Except ValueError Bytes :=
  if pattern.accepts s then .ok s
  else if s.isEmpty then .error .gap
  else .error (.noMatch pattern)

def readInt (s : Bytes) : Except ValueError Int64 :=
  match readInt64 s with
  | .ok n => .ok n
  | .error fault => .error (.number ⟨.attribute, s, fault⟩)

def readSize (s : Bytes) : Except ValueError Int64 := do
  let n ← readInt (← checked .size s)
  if n < sizeBound then pure n else throw .rejected

def readSigned (s : Bytes) : Except ValueError Int64 := do
  readInt (← checked .int s)

def readList {α : Type} (each : Bytes → Except ValueError α) (s : Bytes) :
    Except ValueError (List α) :=
  if s.isEmpty then .error .gap else (s.split 0x2c).mapM each

def readDims (s : Bytes) : Except ValueError (List Int64) :=
  if s.isEmpty then .error .gap
  else
    let parts := s.split 0x78
    if maxDims < parts.length then .error .rejected else parts.mapM readSize

def readData : Bytes → Except ValueError ConstData
  | 0x40 :: path => if path.isEmpty then .error .gap else .ok (.file path)
  | s => .inline <$> readList (checked .float) s

def readChoice {α : Type} (name : α → Bytes) (all : List α) (s : Bytes) : Except ValueError α :=
  match all.find? fun a => name a == s with
  | some a => .ok a
  | none => if s.isEmpty then .error .gap else .error (.expected (all.map name))

/-- Reads a value of the given kind. -/
def read : (kind : FieldKind) → Bytes → Except ValueError kind.Val
  | .ident, s => checked .ident s
  | .name, s => checked .name s
  | .optIdent, s => if s = [0x2d] then .ok none else some <$> checked .ident s
  | .size, s => readSize s
  | .int, s => readSigned s
  | .identList, s => readList (checked .ident) s
  | .intList, s => readList readSigned s
  | .dims, s => readDims s
  | .data, s => readData s
  | .elementType, s => readChoice ElementType.name ElementType.all s
  | .autoPad, s => readChoice AutoPad.name AutoPad.all s

end FieldKind
end NetImage
