import NetImage.Model.Plan
import NetImage.Source.Sections
import NetImage.Text.UpperCase

/-!
# NetImage.Source.DataFiles

The two source files that accompany an image: the constants shared with the runtime, its operator
tables, and each section of the image as a byte array.
-/

namespace NetImage

/-- A byte array of the source, with its name. -/
structure DataVar where
  name : Bytes
  data : ByteArray

namespace DataFiles

open Fragment

/-- The parameters of every operator function. -/
def opParams : Fragment :=
  let info := structTag (ascii "ParameterInfo")
  commaSpaced
    [some (param (structTag (ascii "Model")) (ptr (word "model"))),
     some (param info (elem (ptr (word "input")) none)),
     some (param info (ptr (word "output"))),
     some (param uint16T (word "flags"))]

def allocName (op : Bytes) : Bytes := ascii "alloc_" ++ op.toLower

def handleName (op : Bytes) : Bytes := ascii "handle_" ++ op.toLower

def define (s : Sections) (part : Part) (name : Bytes) (value : Int) : Sections :=
  s.append part (Fragment.define name (some (intLit value)))

/-- Comments and includes. -/
def preamble (s : Sections) : Sections :=
  let note := comment [ascii "Generated by nvmcc. Do not edit."]
  let include_ := fun what => preprocessor (ascii "include") (some what)
  let s := s.appendAll .hPragmaOnce [pragmaOnce, newline]
  let s := s.appendAll .hComment [note, newline]
  let s := s.appendAll .hInclude [include_ (angleBracketed (ascii "stdint.h")), newline]
  let s := s.appendAll .hStructs
    [structDecl (ascii "ParameterInfo"), structDecl (ascii "Model"), newline]
  let s := s.appendAll .cComment [note, newline]
  s.appendAll .cInclude
    [include_ (doubleQuoted (ascii "data.h")), include_ (doubleQuoted (ascii "cnn_common.h")),
     include_ (doubleQuoted (ascii "platform.h")), newline]

/-- The constants shared with the runtime. -/
def constants (c : Config) : List (String × Int) :=
  [("COUNTERS_LEN", countersLen), ("MAX_OUTPUT_ID_INVALID", maxOutputIdInvalid),
   ("NODE_NAME_LEN", nodeNameLen), ("SLOT_INTERMEDIATE_VALUES", slotIntermediateValues),
   ("SLOT_PARAMETERS", slotParameters), ("SLOT_PARAMETERS2", slotParameters2),
   ("SLOT_TEST_SET", slotTestSet), ("SCALE", c.scale.toInt), ("NUM_SLOTS", c.numSlots.toInt),
   ("INTERMEDIATE_VALUES_SIZE", c.intermediateValuesSize.toInt), ("NVM_SIZE", c.nvmSize.toInt),
   ("N_SAMPLES", c.samples.toInt), ("N_ALL_SAMPLES", c.allSamples.toInt)]

def consts (c : Config) (s : Sections) : Sections :=
  let s := (constants c).foldl (fun s (name, value) => define s .hConsts (ascii name) value) s
  let s := s.append .hConsts newline
  if c.withoutProgressEmbedding then s
  else s.appendAll .hProgress [Fragment.define (ascii "WITH_PROGRESS_EMBEDDING") none, newline]

/-- The allocator of an operator that writes over its input: the output slot is claimed for the
current layer. -/
def inPlace (name : Bytes) : Fragment :=
  let model := word "model"
  let slot := elem (arrow model (ascii "slot_users")) (some (arrow (word "output") (ascii "slot")))
  funcDef void (allocName name) (some opParams)
    (some (statements [some (assign slot (arrow model (ascii "layer_idx")))]))

/-- The operator table: numbers, prototypes and allocators. -/
def ops (s : Sections) : Sections :=
  let s := OpType.entries.foldl
    (fun s (op, info) =>
      let s := define s .hOps info.name op.index
      let s := s.appendAll .hProtos
        [funcDecl void (allocName info.name) (some opParams),
         funcDecl void (handleName info.name) (some opParams)]
      if info.inPlace then s.append .cInplace (inPlace info.name) else s)
    s
  let s := s.append .hOps newline
  let s := s.append .hProtos newline
  let table := fun (type name : String) (init : Fragment) =>
    statements [some (var (word type) (elem (word name) none) (some init))]
  let names := fun (f : Bytes → Bytes) =>
    block (some (commaLines (OpType.table.map fun info => some (.text (f info.name)))))
  let expected := commaSpaced (OpType.table.map fun info => some (intLit info.expectedInputs))
  let s := s.appendAll .cExpected
    [table "uint8_t" "expected_inputs_len" (brace (some expected)), newline]
  let s := s.append .cHandlers (table "handler" "handlers" (names handleName))
  s.append .cAllocators (table "allocator" "allocators" (names allocName))

/-- The generic flags. -/
def flags (s : Sections) : Sections :=
  let s := Flags.genericNames.zipIdx.foldl
    (fun s (name, i) => define s .hFlags name (Flags.genericBit i)) s
  s.append .hFlags newline

/-- The memory section in which an array lies: the first parameters have one of their own. -/
def memorySection (name : Bytes) : Bytes :=
  if name = ascii "parameters_data" then ascii ".nvm" else ascii ".nvm2"

/-- One byte array: its declaration and length, and its bytes. -/
def dataVar (s : Sections) (v : DataVar) : Sections :=
  let pointer := ptr (.text v.name)
  let store := Fragment.text (0x5f :: v.name)
  let length := intLit v.data.size
  let s := s.appendAll .hData
    [statements [some (extern_ (var uint8T pointer none))],
     Fragment.define (upperCase v.name ++ ascii "_LEN") (some length), newline]
  s.appendAll .cData
    [preprocessor (ascii "ifdef") (some (word "NEED_DATA_VARS")),
     preprocessor (ascii "pragma")
       (some (call (word "DATA_SECTION") (some (doubleQuoted (memorySection v.name))))),
     statements
       [some (var uint8T (elem store (some length)) (some (block (some (.bytes v.data.data.toList))))),
        some (var uint8T pointer (some store))],
     preprocessor (ascii "endif") none, newline]

/-- All sections of both files. -/
def sections (c : Config) (vars : List DataVar) : Sections :=
  vars.foldl dataVar (flags (ops (consts c (preamble .empty))))

end DataFiles
end NetImage
