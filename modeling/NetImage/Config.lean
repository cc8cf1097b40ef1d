import NetImage.Text.Quoted

/-!
# NetImage.Config

Model configurations: where a model's graph and samples are found, how its values are scaled, and how
large the device's memories are.

* `Config.menu` — the configurations that have a name.
* `Config.lookup` — one of them, with options applied.
* `Config.check` — the limits that the runtime sets.
-/

namespace NetImage

/-- The format of a file of samples. A code without a format can be asked for, but not read. -/
inductive Loader where
  | cntk
  | cifar10
  | unknown (code : Int)
  deriving DecidableEq, Repr

/-- The format with the given code. -/
def Loader.ofCode (code : Int) : Loader :=
  if code = 0 then .cntk else if code = 1 then .cifar10 else .unknown code

/-- The name of a format. -/
def Loader.name : Loader → Bytes
  | .cntk => ascii "CNTK"
  | .cifar10 => ascii "CIFAR10"
  | .unknown _ => []

/-- A model configuration. -/
structure Config where
  name : Bytes := []
  graphFile : Bytes := []
  dataFile : Bytes := []
  loader : Loader := .cntk
  scale : Int64 := 0
  numSlots : Int64 := 0
  samples : Int64 := 0
  allSamples : Int64 := 0
  /-- The size of each intermediate value slot in bytes. -/
  intermediateValuesSize : Int64 := 0
  /-- The size of the non-volatile memory in bytes. -/
  nvmSize : Int64 := 0
  /-- The largest parameter, in bytes, that is placed in the first parameter region. -/
  paramThreshold : Int64 := 0
  withoutProgressEmbedding : Bool := false
  deriving Repr

/-- Why a configuration cannot be used. -/
inductive ConfigError where
  | unknownName (name : Bytes)
  | scale (name : Bytes) (value : Int64)
  | slots (name : Bytes) (value : Int64)
  | intermediateValuesSize (name : Bytes)
  | nvmSize (name : Bytes)
  | samples (name : Bytes)
  | paramThreshold (name : Bytes)
  deriving DecidableEq, Repr

/-- The wording of an error. -/
def ConfigError.message : ConfigError → Bytes
  | .unknownName name => ascii "no configuration named " ++ quote name
  | .scale name value =>
    name ++ ascii ": scale " ++ decimal value.toInt ++ ascii " out of range"
  | .slots name value => name ++ ascii ": " ++ decimal value.toInt ++ ascii " slots out of range"
  | .intermediateValuesSize name => name ++ ascii ": negative intermediate values size"
  | .nvmSize name => name ++ ascii ": NVM size must be positive"
  | .samples name => name ++ ascii ": negative sample count"
  | .paramThreshold name => name ++ ascii ": negative parameter threshold"

/-- What may be asked of a named configuration. -/
structure ConfigOptions where
  withoutProgressEmbedding : Bool := false
  allSamples : Bool := false
  deriving DecidableEq, Repr

namespace Config

/-- The lowest slot id that is taken by parameters and samples; intermediate values stay below. -/
def slotFloor : Int64 := 0xf0

/-- How many times larger the memory is when every sample is compiled. -/
def allSamplesFactor : Int64 := 64

/-- The usual limit for the first parameter region. -/
def usualThreshold : Int64 := 1024

/-- The named configurations. -/
def menu : List Config :=
  [{ name := ascii "mnist"
     graphFile := ascii "data/mnist.graph"
     dataFile := ascii "data/Test-28x28_cntk_text.txt"
     loader := .cntk
     scale := 8
     numSlots := 2
     intermediateValuesSize := 31000
     nvmSize := 256 * 1024
     samples := 20
     allSamples := 10000
     paramThreshold := usualThreshold },
   { name := ascii "cifar10"
     graphFile := ascii "data/squeezenet_cifar10.graph"
     dataFile := ascii "data/cifar10-test_batch.bin"
     loader := .cifar10
     scale := 8
     numSlots := 3
     intermediateValuesSize := 30000
     nvmSize := 1024 * 1024
     samples := 20
     allSamples := 10000
     paramThreshold := usualThreshold }]

/-- Does the configuration stay within the limits of the runtime? -/
def check (c : Config) : Except ConfigError Unit :=
  if c.scale ≤ 0 ∨ 0xffff < c.scale then .error (.scale c.name c.scale)
  else if c.numSlots ≤ 0 ∨ slotFloor ≤ c.numSlots then .error (.slots c.name c.numSlots)
  else if c.intermediateValuesSize < 0 then .error (.intermediateValuesSize c.name)
  else if c.nvmSize ≤ 0 then .error (.nvmSize c.name)
  else if c.samples < 0 then .error (.samples c.name)
  else if c.paramThreshold < 0 then .error (.paramThreshold c.name)
  else .ok ()

/-- A configuration with options applied. -/
def withOptions (c : Config) (options : ConfigOptions) : Config :=
  let c := { c with withoutProgressEmbedding := options.withoutProgressEmbedding }
  if options.allSamples then
    { c with nvmSize := c.nvmSize * allSamplesFactor, samples := c.allSamples }
  else c

/-- The named configuration with options applied. -/
def lookup (name : Bytes) (options : ConfigOptions) : Except ConfigError Config :=
  match menu.find? fun c => c.name == name with
  | none => .error (.unknownName name)
  | some c =>
    let c := c.withOptions options
    c.check.map fun _ => c

end Config
end NetImage
