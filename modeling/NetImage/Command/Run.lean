import NetImage.Build.Compile
import NetImage.Command.Options
import NetImage.Command.Storage
import NetImage.Example.Nets
import NetImage.Graph.Manual

/-!
# NetImage.Command.Run

The commands. A command writes a text, or compiles a configured model and writes its files; what it is
asked for wrongly it answers with how it is used.
-/

namespace NetImage

/-- What a command leaves: its exit code, what it wrote to either stream, and its reports. -/
structure Outcome where
  exit : Nat
  stdout : ByteArray
  stderr : Bytes
  log : Array Event

namespace Outcome

/-- A command that wrote a text. -/
def output (text : ByteArray) : Outcome := ⟨0, text, [], #[]⟩

/-- A command that failed with a message. -/
def failure (message : Bytes) (log : Array Event) : Outcome :=
  ⟨1, .empty, message ++ [0x0a], log⟩

end Outcome

namespace Command

/-- The version of the program. -/
def version : Nat := 3

def indent : String := "    "

/-- How a command is used. -/
def usage (rest : Bytes) : Bytes := ascii "\nUsage:\n\n    nvmcc " ++ rest

/-- The files that are written for a model. -/
def imageFile : Bytes := ascii "nvm.bin"
def headerFile : Bytes := ascii "data.h"
def sourceFile : Bytes := ascii "data.cpp"
def labelsFile : Bytes := ascii "labels.txt"

def compileUsage : Bytes :=
  usage (ascii
    ("compile CONFIG DIR [OPTIONS]\n\n"
      ++ "The CONFIG argument names a model configuration (see the\n"
      ++ "config command). Its graph and dataset files are read\n"
      ++ "relative to the current directory.\n\n"
      ++ "    Example: mnist\n    Example: cifar10\n\n"
      ++ "The DIR argument specifies an output directory where nvm.bin,\n"
      ++ "data.h, data.cpp, and labels.txt will be written.\n"
      ++ "Nothing is written unless compilation succeeds.\n\n"
      ++ "    Example: .\n    Example: build/mnist\n\n"
      ++ "The OPTIONS can be:\n\n"))
    ++ Switch.all.flatMap fun o =>
      ascii indent ++ ascii "-" ++ o.name ++ ascii "\n" ++ ascii indent ++ ascii indent ++ o.doc
        ++ ascii "\n"

def exampleUsage : Bytes :=
  usage (ascii "example NAME\n\nThe NAME argument can be:\n\n    "
    ++ Bytes.join (ascii "\n    ") Example.names ++ ascii "\n")

/-- A configuration as it is listed. -/
def describe (c : Config) : Bytes :=
  let entry := fun (parts : List Bytes) => ascii indent ++ parts.flatten ++ ascii "\n"
  let number := fun (n : Int64) => decimal n.toInt
  c.name ++ ascii "\n"
    ++ entry [ascii "graph ", c.graphFile]
    ++ entry [ascii "data ", c.dataFile, ascii " (", c.loader.name, ascii ")"]
    ++ entry [ascii "scale ", number c.scale]
    ++ entry [ascii "slots ", number c.numSlots, ascii " x ", number c.intermediateValuesSize]
    ++ entry [ascii "nvm ", number c.nvmSize]
    ++ entry [ascii "samples ", number c.samples, ascii " (all ", number c.allSamples, ascii ")"]

/-- The list of configurations. -/
def listConfigs : Bytes := Config.menu.flatMap describe

/-- The commands and what they do. -/
def hints : List (Bytes × Bytes) :=
  [(ascii "compile", ascii "Compile a configured model into an NVM image and C++ data files."),
   (ascii "config", ascii "Write the model configurations to stdout."),
   (ascii "doc", ascii "Write documentation for the graph language to stdout."),
   (ascii "example", ascii "Write graph language for an example neural net to stdout."),
   (ascii "version", ascii "Write the version number of this program to stdout.")]

def programUsage : Bytes :=
  let widest := (hints.map fun h => h.1.length).foldl max 0
  usage (ascii "COMMAND\n\nThe COMMAND argument can be:\n\n")
    ++ hints.flatMap fun (name, hint) =>
      ascii indent ++ name ++ List.replicate (widest + indent.length - name.length) 0x20 ++ hint
        ++ ascii "\n"

/-- What is said about samples that cannot be read once their file is open. -/
def samplesUnreadable (c : Config) (e : FileError) : Bytes :=
  let during := match c.loader with
    | .cifar10 => ascii "record 0: "
    | _ => ascii "read CNTK text: "
  c.dataFile ++ ascii ": " ++ during ++ e.message

variable {m : Type → Type} [Monad m]

/-- The files that the constants of a graph name, below the directory of the graph. -/
def readConstFiles (storage : Storage m) (dir : Bytes) (text : Bytes) : m FileReader := do
  let names := match parse text with
    | .ok decls => constFiles decls
    | .error _ => []
  let mut found : Std.TreeMap Bytes (Except FileError ByteArray) := ∅
  for name in names do
    let path := if Path.isAbsolute name then name else Path.join dir name
    found := found.insert name (← storage.read path)
  let known := found
  pure fun name =>
    match known[name]? with
    | some result => result.mapError FileError.message
    | none => .error FileTree.notFound

/-- Writes files below a directory until one fails. -/
def writeAll (storage : Storage m) (dir : Bytes) :
    List (Bytes × ByteArray) → m (Except FileError Unit)
  | [] => pure (.ok ())
  | (name, bytes) :: rest => do
    match ← storage.write (Path.join dir name) bytes with
    | .ok () => writeAll storage dir rest
    | .error e => pure (.error e)

/-- Compiles a configured model and writes its files. -/
def build (storage : Storage m) (c : Config) (dir : Bytes) : m Outcome := do
  let text ← match ← storage.read c.graphFile with
    | .ok text => pure text.data.toList
    | .error e => return .failure e.message #[]
  let data ← match ← storage.read c.dataFile with
    | .ok data => pure data
    | .error e =>
      let message := if e.action = .opening then e.message else samplesUnreadable c e
      return .failure message #[]
  let samples ← match loadSamples c.loader data c.samples.toInt with
    | .ok samples => pure samples
    | .error e => return .failure (c.dataFile ++ ascii ": " ++ e.message) #[]
  let log := #[Event.samplesLoaded c.dataFile samples.length]
  let read ← readConstFiles storage (Path.directory c.graphFile) text
  let compiled := compile text samples c read
  let log := log ++ compiled.log
  match compiled.result with
  | .error e => return .failure e.message log
  | .ok out =>
    let files :=
      [(imageFile, out.image.bytes), (headerFile, out.bundle.header),
       (sourceFile, out.bundle.source), (labelsFile, out.bundle.listing.toByteArray)]
    match ← writeAll storage dir files with
    | .error e => return .failure e.message log
    | .ok () =>
      let log := log.push (.written dir out.image.used c.nvmSize.toInt)
      return ⟨0, .empty, [], log⟩

/-- The compile command. -/
def compileCommand (storage : Storage m) (args : List Bytes) : m Outcome :=
  match CompileRequest.ofArgs args with
  | none => pure (.failure compileUsage #[])
  | some request =>
    match Config.lookup request.config request.options with
    | .error e => pure (.failure e.message #[])
    | .ok config => build storage config request.dir

/-- A command without arguments that writes a text. -/
def plainCommand (name text : Bytes) (args : List Bytes) : Outcome :=
  if args.isEmpty then .output text.toByteArray
  else .failure (usage (name ++ ascii "\n")) #[]

/-- The example command. -/
def exampleCommand (args : List Bytes) : Outcome :=
  match args with
  | [name] =>
    match Example.text? name with
    | some text => .output text
    | none => .failure exampleUsage #[]
  | _ => .failure exampleUsage #[]

/-- Runs the command that the arguments name. -/
def run (storage : Storage m) (args : List Bytes) : m Outcome :=
  match args with
  | [] => pure (.failure programUsage #[])
  | name :: args =>
    if name = ascii "compile" then compileCommand storage args
    else if name = ascii "config" then pure (plainCommand name listConfigs args)
    else if name = ascii "doc" then pure (plainCommand name manual args)
    else if name = ascii "example" then pure (exampleCommand args)
    else if name = ascii "version" then
      pure (plainCommand name (decimalNat version ++ ascii "\n") args)
    else pure (.failure programUsage #[])

end Command
end NetImage
