import NetImage.Bytes

/-!
# NetImage.Image

A flat image of the device's non-volatile memory. The first bytes are reserved for the runtime, the
sections follow without gaps, and the rest is zero. Sizes are 64-bit integers and their sum wraps.

A size that passes the tests always gives an image: that there is memory for so many bytes is assumed.
A program on a real machine stops without a result where there is none.
-/

namespace NetImage

/-- An image. -/
structure Image where
  bytes : ByteArray
  /-- Where each section starts. -/
  offsets : List Int
  /-- The end of the last section. -/
  used : Int

/-- Why sections make no image. -/
inductive ImageError where
  /-- The sections need more bytes than there are. -/
  | capacity (need available : Int64)
  /-- The size is negative, or a section would lie outside the image. -/
  | outside
  deriving DecidableEq, Repr

namespace Image

/-- The size that the sections need behind the reserved bytes, modulo two to the 64. -/
def need (reserved : Int64) (sections : List ByteArray) : Int64 :=
  sections.foldl (fun n s => n + Int64.ofNat s.size) reserved

/-- Where the sections start if the first starts at `start`. -/
def offsetsFrom (start : Int) (sections : List ByteArray) : List Int :=
  (sections.foldl (fun (acc : List Int × Int) s => (acc.2 :: acc.1, acc.2 + s.size))
    ([], start)).1.reverse

/-- The image of the sections. -/
def assemble (reserved size : Int64) (sections : List ByteArray) : Except ImageError Image :=
  let need := need reserved sections
  let start := reserved.toInt
  let stop := sections.foldl (fun n s => n + (s.size : Int)) start
  if size < need then .error (.capacity need size)
  else if size < 0 then .error .outside
  else if sections.isEmpty then .ok ⟨extendZeros size.toInt.toNat .empty, [], need.toInt⟩
  else if start < 0 ∨ size.toInt < stop then .error .outside
  else
    let head := extendZeros start.toNat .empty
    let body := sections.foldl (· ++ ·) head
    .ok ⟨extendZeros (size.toInt - stop).toNat body, offsetsFrom start sections, need.toInt⟩

end Image
end NetImage
