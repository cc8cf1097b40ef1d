import NetImage.Bytes

/-!
# NetImage.Model.Flags

The attributes of a node that the runtime reads from one word of sixteen bits: the stride in bits 0
to 3, the kernel size in bits 4 to 7, and one bit for each generic flag from bit 8 on.
-/

namespace NetImage

/-- The attributes of a node. -/
structure Flags where
  stride : Int := 0
  kernelSize : Int := 0
  autoPadValid : Bool := false
  nhwcToNchw : Bool := false
  transposed : Bool := false
  separateTiling : Bool := false
  deriving DecidableEq, Repr

/-- An attribute that does not fit its bits. -/
inductive FlagsError where
  | stride (value : Int)
  | kernelSize (value : Int)
  deriving DecidableEq, Repr

/-- The wording of an error. -/
def FlagsError.message : FlagsError → Bytes
  | .stride value => ascii "stride " ++ decimal value ++ ascii " does not fit in 4 bits"
  | .kernelSize value => ascii "kernel size " ++ decimal value ++ ascii " does not fit in 4 bits"

namespace Flags

/-- The generic flags' names, in the order of their bits. -/
def genericNames : List Bytes :=
  [ascii "AUTO_PAD_VALID", ascii "NHWC2NCHW", ascii "TRANSPOSED", ascii "SEPARATE_TILING"]

/-- The generic flags, in the order of their bits. -/
def generic (f : Flags) : List Bool :=
  [f.autoPadValid, f.nhwcToNchw, f.transposed, f.separateTiling]

/-- The value of a generic flag within its byte. -/
def genericBit (i : Nat) : Nat := 1 <<< i

/-- Do stride and kernel size fit four bits? -/
def check (f : Flags) : Except FlagsError Unit :=
  if f.stride < 0 ∨ 15 < f.stride then .error (.stride f.stride)
  else if f.kernelSize < 0 ∨ 15 < f.kernelSize then .error (.kernelSize f.kernelSize)
  else .ok ()

/-- The word the runtime reads. Attributes that do not fit spill into other bits. -/
def bits (f : Flags) : UInt16 :=
  f.generic.zipIdx.foldl (fun word (on, i) => if on then word ||| (1 <<< (8 + i).toUInt16) else word)
    (UInt16.ofInt f.stride ||| (UInt16.ofInt f.kernelSize <<< 4))

end Flags
end NetImage
