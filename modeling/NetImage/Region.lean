import NetImage.Model.Plan

/-!
# NetImage.Region

The two parameter regions. Parameters up to a threshold go to the first, larger ones to the second.
Nothing placed is ever moved: an offset stays right for good.
-/

namespace NetImage

/-- A region: its slot id and what was placed in it. -/
structure Region where
  slot : Int
  data : ByteArray

/-- Where a parameter was placed. -/
structure Placement where
  offset : Nat
  slot : Int
  deriving DecidableEq, Repr

/-- The two regions and the size up to which a parameter goes to the first. -/
structure Regions where
  threshold : Int
  first : Region
  second : Region

namespace Regions

/-- Two empty regions. -/
def empty (threshold : Int) : Regions :=
  ⟨threshold, ⟨slotParameters, .empty⟩, ⟨slotParameters2, .empty⟩⟩

/-- Does a parameter of `n` bytes go to the first region? -/
def goesFirst (r : Regions) (n : Int) : Bool := n ≤ r.threshold

/-- The region for a parameter of `n` bytes. -/
def select (r : Regions) (n : Int) : Region := if r.goesFirst n then r.first else r.second

/-- The regions with one more parameter, and where it is. -/
def place (r : Regions) (bytes : Bytes) : Regions × Placement :=
  let region := r.select bytes.length
  let placement := ⟨region.data.size, region.slot⟩
  if r.goesFirst bytes.length then
    let ⟨threshold, ⟨slot, data⟩, second⟩ := r
    (⟨threshold, ⟨slot, extend data bytes⟩, second⟩, placement)
  else
    let ⟨threshold, first, ⟨slot, data⟩⟩ := r
    (⟨threshold, first, ⟨slot, extend data bytes⟩⟩, placement)

/-- The placement of a graph input, whose data arrives with the samples. -/
def reserve (r : Regions) : Placement := ⟨r.first.data.size, slotTestSet⟩

end Regions
end NetImage
