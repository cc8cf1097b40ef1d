import NetImage.Config
import NetImage.Proofs.Passes

/-!
# NetImage.Proofs.Config

The bounds that a configuration has passed.
-/

namespace NetImage
namespace Config

/-- Every setting is in its range. -/
structure InBounds (c : Config) : Prop where
  scale : 0 < c.scale.toInt ∧ c.scale.toInt ≤ 0xffff
  numSlots : 0 < c.numSlots.toInt ∧ c.numSlots.toInt < 0xf0
  intermediateValuesSize : 0 ≤ c.intermediateValuesSize.toInt
  nvmSize : 0 < c.nvmSize.toInt
  samples : 0 ≤ c.samples.toInt
  paramThreshold : 0 ≤ c.paramThreshold.toInt

theorem check_eq_ok {c : Config} : c.check = .ok () ↔ c.InBounds := by
  have hzero : (0 : Int64).toInt = 0 := rfl
  have hscale : (0xffff : Int64).toInt = 0xffff := rfl
  have hslots : slotFloor.toInt = 0xf0 := rfl
  unfold check
  simp only [Int64.le_iff_toInt_le, Int64.lt_iff_toInt_lt, hzero, hscale, hslots]
  constructor
  · intro h
    split at h; · cases h
    split at h; · cases h
    split at h; · cases h
    split at h; · cases h
    split at h; · cases h
    split at h; · cases h
    exact ⟨by omega, by omega, by omega, by omega, by omega, by omega⟩
  · rintro ⟨h₁, h₂, h₃, h₄, h₅, h₆⟩
    rw [if_neg (by omega), if_neg (by omega), if_neg (by omega), if_neg (by omega),
      if_neg (by omega), if_neg (by omega)]

end Config
end NetImage
