import NetImage.Config
import NetImage.Number.Literal
import NetImage.Text.Blank

/-!
# NetImage.Sample

Calibration samples. Pixel values are scaled to the range from 0 to 1 and stored channel by channel.

* `Cntk` — text with one sample to a line: a one-hot label vector and 28 by 28 intensities.
* `Cifar10` — records of a label byte and three planes of 32 by 32 intensities.
* `loadSamples` — either of them, up to a limit.
-/

namespace NetImage

/-- A sample. -/
structure Sample where
  channels : Int64
  height : Int64
  width : Int64
  data : List Float32
  label : Int64

/-- Why a line is no sample. -/
inductive LineError where
  | noMarkers
  | label (error : NumberError)
  | noHotLabel
  | featureCount (count : Nat)
  | feature (error : NumberError)
  deriving DecidableEq, Repr

/-- Why samples cannot be loaded. -/
inductive SampleError where
  | line (number : Nat) (error : LineError)
  | lineTooLong
  | shortRecord (record : Nat)
  | recordLabel (record : Nat) (label : UInt8)
  | unknownLoader (code : Int)
  deriving DecidableEq, Repr

namespace Cntk

def labelsMark : Bytes := ascii "|labels"
def featuresMark : Bytes := ascii "|features"

/-- The width and height of a sample. -/
def side : Nat := 28

/-- A line of this many bytes is too long. -/
def lineLimit : Nat := 1048576

end Cntk

/-- The wording of an error. -/
def LineError.message : LineError → Bytes
  | .noMarkers => ascii "expected " ++ Cntk.labelsMark ++ ascii " and " ++ Cntk.featuresMark
  | .label error => ascii "label: " ++ error.message
  | .noHotLabel => ascii "no hot label"
  | .featureCount count =>
    decimal count ++ ascii " features, expected " ++ decimal (Cntk.side * Cntk.side : Nat)
  | .feature error => ascii "feature: " ++ error.message

/-- The wording of an error. -/
def SampleError.message : SampleError → Bytes
  | .line number error => ascii "line " ++ decimal number ++ ascii ": " ++ error.message
  | .lineTooLong => ascii "read CNTK text: bufio.Scanner: token too long"
  | .shortRecord record => ascii "record " ++ decimal record ++ ascii ": unexpected EOF"
  | .recordLabel record label =>
    ascii "record " ++ decimal record ++ ascii ": label " ++ decimal label.toNat
      ++ ascii " out of range"
  | .unknownLoader code => ascii "unknown loader " ++ decimal code

/-- May a sample be read when `count` of them have been? A negative limit is none. -/
def withinLimit (limit : Int) (count : Nat) : Bool := limit < 0 || (count : Int) < limit

namespace Cntk

/-- The largest intensity. -/
def pixelMax : Float := 255.0

/-- Reads the real numbers of some fields. -/
def readReals (fault : NumberError → LineError) (texts : List Bytes) :
    Except LineError (List Float32) :=
  texts.mapM fun text =>
    match readFloat32 text with
    | .ok x => .ok x
    | .error e => .error (fault ⟨.real, text, e⟩)

/-- Is a number other than zero? What is not a number is other than zero. -/
def isHot (x : Float32) : Bool :=
  match valueOf32 x with
  | .finite _ 0 _ => false
  | _ => true

/-- The position of the last hot entry. -/
def hotIndex (xs : List Float32) : Option Nat :=
  xs.zipIdx.foldl (fun found (x, i) => if isHot x then some i else found) none

/-- The texts behind the two marks, labels first. Each reaches up to the other mark. -/
def parts (text : Bytes) : Option (Bytes × Bytes) := do
  let i ← text.find labelsMark
  let j ← text.find featuresMark
  let labels := i + labelsMark.length
  let features := j + featuresMark.length
  if i < j then (text.slice labels j, text.drop features)
  else (text.drop labels, text.slice features i)

/-- Reads one sample from a line without blanks at its ends. -/
def sample (text : Bytes) : Except LineError Sample := do
  let some (labels, features) := parts text | throw .noMarkers
  let hot ← readReals .label (fields labels)
  let some label := hotIndex hot | throw .noHotLabel
  let texts := fields features
  if texts.length ≠ side * side then throw (.featureCount texts.length)
  let pixels ← readReals .feature texts
  pure
    { channels := 1
      height := 28
      width := 28
      data := pixels.map fun x => narrow (widen x / pixelMax)
      label := Int64.ofNat label }

/-- The lines of a text; the last need not be ended. -/
def lines (data : Bytes) : List Bytes :=
  let pieces := data.split 0x0a
  if pieces.getLast? = some [] then pieces.dropLast else pieces

/-- Where loading stands: the number of the next line, how many samples were read, and the samples,
newest first. -/
structure State where
  number : Nat
  count : Nat
  samples : List Sample

/-- Reads on until the limit is reached or the lines end. -/
def loadFrom (limit : Int) : State → List Bytes → Except SampleError (List Sample)
  | s, [] => .ok s.samples.reverse
  | s, line :: rest =>
    if !withinLimit limit s.count then .ok s.samples.reverse
    else if lineLimit ≤ line.length then .error .lineTooLong
    else
      let text := trim line
      if text.isEmpty then loadFrom limit { s with number := s.number + 1 } rest
      else match sample text with
        | .error e => .error (.line s.number e)
        | .ok x => loadFrom limit ⟨s.number + 1, s.count + 1, x :: s.samples⟩ rest

/-- The samples of a text, up to the limit. -/
def load (data : ByteArray) (limit : Int) : Except SampleError (List Sample) :=
  loadFrom limit ⟨1, 0, []⟩ (lines data.data.toList)

end Cntk

namespace Cifar10

/-- The number of bytes of a record: a label and three planes of 32 by 32. -/
def recordBytes : Nat := 1 + 32 * 32 * 3

/-- Labels stay below the number of classes. -/
def classes : UInt8 := 10

/-- The sample in a record. -/
def sample (index : Nat) (record : Bytes) : Except SampleError Sample :=
  let label := record.headD 0
  if classes ≤ label then .error (.recordLabel index label)
  else .ok
    { channels := 3
      height := 32
      width := 32
      data := record.tail.map fun b => b.toFloat32 / 255.0
      label := Int64.ofNat label.toNat }

/-- The bytes of a record. -/
def record (data : ByteArray) (index : Nat) : Bytes :=
  (data.extract (index * recordBytes) ((index + 1) * recordBytes)).data.toList

/-- The samples of a file, up to the limit. -/
def load (data : ByteArray) (limit : Int) : Except SampleError (List Sample) := do
  let full := data.size / recordBytes
  let wanted := if limit < 0 then full else min full limit.toNat
  let samples ← (List.range wanted).mapM fun i => sample i (record data i)
  if withinLimit limit full && data.size % recordBytes ≠ 0 then throw (.shortRecord full)
  pure samples

end Cifar10

/-- The samples of a file in the given format, up to the limit. -/
def loadSamples (loader : Loader) (data : ByteArray) (limit : Int) :
    Except SampleError (List Sample) :=
  match loader with
  | .cntk => Cntk.load data limit
  | .cifar10 => Cifar10.load data limit
  | .unknown code => .error (.unknownLoader code)

end NetImage
