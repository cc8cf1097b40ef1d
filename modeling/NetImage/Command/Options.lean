import NetImage.Config

/-!
# NetImage.Command.Options

The options of a command. An option is a word behind one or two dashes, with a truth value behind `=`
or none. Options end at the first argument that is not one, or behind two dashes alone.
-/

namespace NetImage

/-- An option that is on or off. -/
structure Switch where
  name : Bytes
  doc : Bytes
  set : Bool → ConfigOptions → ConfigOptions

namespace Switch

/-- The options of the compile command, in the order of their names. -/
def all : List Switch :=
  [{ name := ascii "all-samples"
     doc := ascii "Compile the whole test set and grow the NVM size to match."
     set := fun on o => { o with allSamples := on } },
   { name := ascii "without-progress-embedding"
     doc := ascii "Do not define WITH_PROGRESS_EMBEDDING in data.h."
     set := fun on o => { o with withoutProgressEmbedding := on } }]

/-- Reads a truth value. -/
def readBool (s : Bytes) : Option Bool :=
  if ["1", "t", "T", "true", "TRUE", "True"].any fun t => ascii t == s then some true
  else if ["0", "f", "F", "false", "FALSE", "False"].any fun t => ascii t == s then some false
  else none

/-- Reads an option without its dashes; `none` if there is no such option or its value is bad. -/
def read (options : ConfigOptions) (s : Bytes) : Option ConfigOptions :=
  match s with
  | [] => none
  | 0x2d :: _ => none
  | 0x3d :: _ => none
  | b :: rest =>
    let (name, value) := match Bytes.cut 0x3d rest with
      | some (front, value) => (b :: front, readBool value)
      | none => (s, some true)
    match all.find? (fun o => o.name == name), value with
    | some o, some on => some (o.set on options)
    | _, _ => none

/-- Reads options up to the first argument that is none, and gives the arguments from there on. -/
def readAll (options : ConfigOptions) : List Bytes → Option (ConfigOptions × List Bytes)
  | [] => some (options, [])
  | arg :: args =>
    match arg with
    | [0x2d, 0x2d] => some (options, args)
    | 0x2d :: 0x2d :: s => (read options s).bind fun options => readAll options args
    | 0x2d :: b :: s => (read options (b :: s)).bind fun options => readAll options args
    | _ => some (options, arg :: args)

end Switch

/-- What the compile command is asked for. -/
structure CompileRequest where
  config : Bytes
  dir : Bytes
  options : ConfigOptions

/-- Reads the arguments of the compile command: a configuration and a directory, with options before
and behind them. -/
def CompileRequest.ofArgs (args : List Bytes) : Option CompileRequest :=
  match Switch.readAll {} args with
  | some (options, config :: dir :: rest) =>
    match Switch.readAll options rest with
    | some (options, []) => some ⟨config, dir, options⟩
    | _ => none
  | _ => none

end NetImage
