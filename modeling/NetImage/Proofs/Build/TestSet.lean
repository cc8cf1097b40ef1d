import NetImage.Proofs.Build.Compile
import NetImage.Proofs.Build.Encoding
import NetImage.Proofs.Model.Decoding
import NetImage.Proofs.Wire

/-!
# NetImage.Proofs.Build.TestSet

The samples of a model as they are stored: one behind the other, each value as a word of two bytes, and
a byte for every label.

* `Sample.stored`: a sample in fixed point, and `Sample.numberAt_stored`: its words read back.
* `TestSet.holds_of_ofSamples`: what storing all samples gives.
* `Bundle.samples_of_ofPlan`, `Bundle.labels_of_ofPlan`: what is written of it.
-/

namespace NetImage

/-! ## One sample -/

namespace Sample

/-- The sample in fixed point, value by value. -/
def stored (scale : Int64) (s : Sample) : Bytes :=
  s.data.flatMap fun v => Wire.i16 (quantize (descale (widen v) scale))

/-- The byte of the label. -/
def labelByte (s : Sample) : UInt8 := UInt8.ofNat s.label.toInt.toNat

theorem length_stored (scale : Int64) (s : Sample) :
    (s.stored scale).length = 2 * s.data.length := by
  simp [stored, List.length_flatMap, Nat.mul_comm]

/-- The words of a sample, read as signed numbers, are its values in fixed point. -/
theorem numberAt_stored {scale : Int64} {s : Sample} {j : Nat} {v : Float32}
    (hv : s.data[j]? = some v) :
    (Wire.numberAt (s.stored scale) (2 * j) 2 : Int).bmod (2 ^ 16) =
      quantize (descale (widen v) scale) := by
  have hword : (s.stored scale).slice (2 * j) (2 * (j + 1)) =
      Wire.i16 (quantize (descale (widen v) scale)) := by
    rw [stored, List.flatMap_def]
    refine Bytes.slice_flatten ?_ (by rw [List.getElem?_map, hv, Option.map_some])
    intro word hword
    obtain ⟨u, -, rfl⟩ := List.mem_map.mp hword
    exact Wire.length_i16 _
  rw [Wire.numberAt, ← Nat.mul_succ, hword, bmod_quantize]

end Sample

/-! ## All samples -/

/-- The samples one behind the other, and their labels, each of which fits a byte. -/
structure TestSet.Holds (scale : Int64) (samples : List Sample) (bytes : ByteArray)
    (labels : List Int) : Prop where
  bytes : bytes.data.toList = samples.flatMap (Sample.stored scale)
  labels : labels = samples.map fun s => s.label.toInt
  label : ∀ s ∈ samples, 0 ≤ s.label.toInt ∧ s.label.toInt ≤ 255

theorem Quantized.bytes_ofValues (scale : Int64) (s : Sample) :
    (ofValues scale (s.data.map widen)).bytes = s.stored scale := by
  simp [ofValues, Sample.stored, List.flatMap_map]

theorem TestSet.holds_add {scale : Int64} {seen : List Sample} {x : Sample} {s s' : State}
    (hs : Holds scale seen s.bytes s.labels.reverse) (h : (s.add scale x).result = .ok s') :
    Holds scale (seen ++ [x]) s'.bytes s'.labels.reverse := by
  unfold State.add at h
  simp only [Traced.result_bind, Traced.result_tell] at h
  obtain ⟨-, -, h⟩ := bind_eq_ok.mp h
  split at h
  · cases h
  · rename_i hlabel
    cases h
    refine ⟨?_, ?_, ?_⟩
    · rw [toList_extend, hs.bytes, Quantized.bytes_ofValues, List.flatMap_append,
        List.flatMap_singleton]
    · rw [List.reverse_cons, hs.labels, List.map_append]
      rfl
    · rw [Int64.lt_iff_toInt_lt, Int64.lt_iff_toInt_lt, Int64.toInt_zero,
        show (0xff : Int64).toInt = 255 from rfl] at hlabel
      refine List.forall_mem_append.mpr ⟨hs.label, List.forall_mem_singleton.mpr ?_⟩
      omega

theorem TestSet.holds_of_ofSamples {scale : Int64} {samples : List Sample} {tests : TestSet}
    (h : (ofSamples scale samples).result = .ok tests) :
    Holds scale samples tests.bytes tests.labels := by
  simp only [ofSamples, Traced.result_bind, Traced.result_fold, Traced.result_pure] at h
  obtain ⟨s, hs, h⟩ := bind_eq_ok.mp h
  cases h
  exact foldlM_invariant (P := fun seen (s : State) => Holds scale seen s.bytes s.labels.reverse)
    (fun _ _ _ _ hs hstep => holds_add hs hstep) ⟨rfl, rfl, by simp⟩ hs

/-! ## What is written -/

namespace Bundle

variable {p : Plan} {b : Bundle}

theorem samples_of_ofPlan (h : ofPlan p = .ok b) : b.stream .samples = p.samples := by
  unfold ofPlan at h
  obtain ⟨model, -, h⟩ := bind_eq_ok.mp h
  cases h
  rfl

theorem labels_of_ofPlan (h : ofPlan p = .ok b) :
    (b.stream .labels).data.toList = p.labels.flatMap Wire.u8 := by
  unfold ofPlan at h
  obtain ⟨model, -, h⟩ := bind_eq_ok.mp h
  cases h
  exact (Record.toList_foldl Wire.u8 p.labels .empty).trans (List.flatMap_def ▸ List.nil_append _)

theorem listing_of_ofPlan (h : ofPlan p = .ok b) :
    b.listing = Bytes.join (ascii " ") (p.labels.map decimal) := by
  unfold ofPlan at h
  obtain ⟨model, -, h⟩ := bind_eq_ok.mp h
  cases h
  rfl

end Bundle
end NetImage
