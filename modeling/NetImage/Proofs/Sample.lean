import NetImage.Sample
import NetImage.Proofs.Passes

/-!
# NetImage.Proofs.Sample

How many samples are loaded. Loading stops at the limit or at the end of the data, whichever comes
first, and either is a success.

* `Cntk.outcome`: what one line gives; `loadFrom_of_blank` and its neighbours are the steps of loading.
* `Cntk.loadFrom_eq_ok`: what loading adds to the samples read so far.
* `loadSamples_eq_ok`: the number of samples, and the size of each.
-/

namespace NetImage

/-- Does the line hold more than blanks? -/
def Cntk.isFilled (line : Bytes) : Bool := !(trim line).isEmpty

/-- How many samples the data holds. -/
def Loader.held (loader : Loader) (data : ByteArray) : Nat :=
  match loader with
  | .cntk => (Cntk.lines data.data.toList).countP Cntk.isFilled
  | .cifar10 => data.size / Cifar10.recordBytes
  | .unknown _ => 0

/-- How many values a sample has. -/
def Loader.values : Loader → Nat
  | .cntk => 28 * 28
  | .cifar10 => 3 * 32 * 32
  | .unknown _ => 0

theorem withinLimit_iff {limit count : Nat} : withinLimit limit count = true ↔ count < limit := by
  simp [withinLimit]

namespace Cntk

theorem length_readReals {fault : NumberError → LineError} {texts : List Bytes} {xs : List Float32}
    (h : readReals fault texts = .ok xs) : xs.length = texts.length :=
  (mapM_eq_ok.mp h).length_eq.symm

theorem sample_eq_ok {text : Bytes} {x : Sample} (h : sample text = .ok x) :
    ∃ labels features hot label pixels, parts text = some (labels, features) ∧
      readReals .label (fields labels) = .ok hot ∧ hotIndex hot = some label ∧
      (fields features).length = side * side ∧
      readReals .feature (fields features) = .ok pixels ∧
      x = ⟨1, 28, 28, pixels.map fun p => narrow (widen p / pixelMax), Int64.ofNat label⟩ := by
  unfold sample at h
  cases hparts : parts text with
  | none =>
    rw [hparts] at h
    cases h
  | some marked =>
    simp only [hparts] at h
    obtain ⟨hot, hhot, h⟩ := bind_eq_ok.mp h
    cases hlabel : hotIndex hot with
    | none =>
      rw [hlabel] at h
      cases h
    | some label =>
      simp only [hlabel] at h
      split at h
      · cases h
      · rename_i hcount
        obtain ⟨pixels, hpixels, h⟩ := bind_eq_ok.mp h
        cases h
        exact ⟨marked.1, marked.2, hot, label, pixels, rfl, hhot, hlabel, not_not.mp hcount, hpixels,
          rfl⟩

theorem length_data_of_sample {text : Bytes} {x : Sample} (h : sample text = .ok x) :
    x.data.length = 28 * 28 := by
  obtain ⟨-, features, -, -, pixels, -, -, -, hcount, hpixels, rfl⟩ := sample_eq_ok h
  rw [List.length_map, length_readReals hpixels, hcount]
  rfl

/-! ## One line after the other -/

/-- What a line gives: nothing if it is blank. -/
def outcome (number : Nat) (line : Bytes) : Option (Except SampleError Sample) :=
  if lineLimit ≤ line.length then some (.error .lineTooLong)
  else if isFilled line then some ((sample (trim line)).mapError (.line number))
  else none

theorem outcome_eq_none {number : Nat} {line : Bytes} (h : outcome number line = none) :
    line.length < lineLimit ∧ isFilled line = false := by
  unfold outcome at h
  split at h
  · cases h
  · rename_i hshort
    split at h
    · cases h
    · rename_i hblank
      exact ⟨Nat.not_le.mp hshort, Bool.eq_false_iff.mpr hblank⟩

theorem outcome_eq_error {number : Nat} {line : Bytes} {e : SampleError}
    (h : outcome number line = some (.error e)) :
    lineLimit ≤ line.length ∧ e = .lineTooLong ∨ line.length < lineLimit ∧ isFilled line = true ∧
      ∃ cause, sample (trim line) = .error cause ∧ e = .line number cause := by
  unfold outcome at h
  split at h
  · rename_i hlong
    cases h
    exact .inl ⟨hlong, rfl⟩
  · rename_i hshort
    split at h
    · rename_i hfilled
      cases hx : sample (trim line) with
      | ok x =>
        rw [hx] at h
        cases h
      | error cause =>
        rw [hx] at h
        cases h
        exact .inr ⟨Nat.not_le.mp hshort, hfilled, cause, rfl, rfl⟩
    · cases h

theorem outcome_eq_ok {number : Nat} {line : Bytes} {x : Sample}
    (h : outcome number line = some (.ok x)) :
    line.length < lineLimit ∧ isFilled line = true ∧ sample (trim line) = .ok x := by
  unfold outcome at h
  split at h
  · cases h
  · rename_i hshort
    split at h
    · rename_i hfilled
      exact ⟨Nat.not_le.mp hshort, hfilled, mapError_eq_ok.mp (Option.some.inj h)⟩
    · cases h

section Steps

variable {limit : Int} {s : State} {line : Bytes}

theorem loadFrom_of_full (hfull : withinLimit limit s.count = false) (lines : List Bytes) :
    loadFrom limit s lines = .ok s.samples.reverse := by
  cases lines with
  | nil => rfl
  | cons line rest => rw [loadFrom, hfull, Bool.not_false, if_pos rfl]

theorem loadFrom_of_blank (hroom : withinLimit limit s.count = true)
    (h : outcome s.number line = none) (rest : List Bytes) :
    loadFrom limit s (line :: rest) = loadFrom limit { s with number := s.number + 1 } rest := by
  obtain ⟨hshort, hblank⟩ := outcome_eq_none h
  rw [loadFrom, hroom, Bool.not_true, if_neg Bool.false_ne_true, if_neg (Nat.not_le.mpr hshort)]
  dsimp only
  rw [if_pos (by simpa [isFilled] using hblank)]

theorem loadFrom_of_error (hroom : withinLimit limit s.count = true) {e : SampleError}
    (h : outcome s.number line = some (.error e)) (rest : List Bytes) :
    loadFrom limit s (line :: rest) = .error e := by
  rw [loadFrom, hroom, Bool.not_true, if_neg Bool.false_ne_true]
  rcases outcome_eq_error h with ⟨hlong, rfl⟩ | ⟨hshort, hfilled, cause, hcause, rfl⟩
  · rw [if_pos hlong]
  · rw [if_neg (Nat.not_le.mpr hshort)]
    dsimp only
    rw [if_neg (by simpa [isFilled] using hfilled), hcause]

theorem loadFrom_of_sample (hroom : withinLimit limit s.count = true) {x : Sample}
    (h : outcome s.number line = some (.ok x)) (rest : List Bytes) :
    loadFrom limit s (line :: rest) =
      loadFrom limit ⟨s.number + 1, s.count + 1, x :: s.samples⟩ rest := by
  obtain ⟨hshort, hfilled, hx⟩ := outcome_eq_ok h
  rw [loadFrom, hroom, Bool.not_true, if_neg Bool.false_ne_true, if_neg (Nat.not_le.mpr hshort)]
  dsimp only
  rw [if_neg (by simpa [isFilled] using hfilled), hx]

end Steps

/-- What loading adds to the samples read so far, as long as there are no more than the limit. -/
theorem loadFrom_eq_ok {limit : Nat} {s : State} {lines : List Bytes} {xs : List Sample}
    (hle : s.count ≤ limit) (h : loadFrom limit s lines = .ok xs) :
    ∃ new, xs = s.samples.reverse ++ new ∧
      new.length = min (limit - s.count) (lines.countP isFilled) ∧
      ∀ x ∈ new, x.data.length = 28 * 28 := by
  induction lines generalizing s with
  | nil =>
    cases h
    exact ⟨[], by simp⟩
  | cons line rest ih =>
    cases hroom : withinLimit limit s.count with
    | false =>
      rw [loadFrom_of_full hroom] at h
      cases h
      rw [← Bool.not_eq_true, withinLimit_iff] at hroom
      exact ⟨[], by simp; omega⟩
    | true =>
      cases hline : outcome s.number line with
      | none =>
        rw [loadFrom_of_blank hroom hline] at h
        obtain ⟨new, rfl, hlen, hdata⟩ := ih (s := { s with number := s.number + 1 }) hle h
        refine ⟨new, rfl, ?_, hdata⟩
        rw [List.countP_cons_of_neg (by simp [(outcome_eq_none hline).2])]
        exact hlen
      | some result =>
        cases result with
        | error e =>
          rw [loadFrom_of_error hroom hline] at h
          cases h
        | ok x =>
          rw [loadFrom_of_sample hroom hline] at h
          obtain ⟨-, hfilled, hx⟩ := outcome_eq_ok hline
          obtain ⟨new, rfl, hlen, hdata⟩ := ih (s := ⟨s.number + 1, s.count + 1, x :: s.samples⟩)
            (withinLimit_iff.mp hroom) h
          refine ⟨x :: new, by simp, ?_,
            List.forall_mem_cons.mpr ⟨length_data_of_sample hx, hdata⟩⟩
          rw [List.countP_cons_of_pos hfilled, List.length_cons, hlen]
          have := withinLimit_iff.mp hroom
          show min (limit - (s.count + 1)) _ + 1 = _
          omega

end Cntk

namespace Cifar10

theorem length_record {data : ByteArray} {i : Nat} (h : i < data.size / recordBytes) :
    (record data i).length = recordBytes := by
  have hfits : (i + 1) * recordBytes ≤ data.size :=
    (Nat.le_div_iff_mul_le (by decide)).mp h
  have hsize : (record data i).length =
      (data.extract (i * recordBytes) ((i + 1) * recordBytes)).size := Array.length_toList
  rw [hsize, ByteArray.size_extract, Nat.min_eq_left hfits, Nat.add_mul, Nat.add_sub_cancel_left,
    Nat.one_mul]

theorem sample_eq_ok {index : Nat} {bytes : Bytes} {x : Sample} :
    sample index bytes = .ok x ↔ bytes.headD 0 < classes ∧
      x = ⟨3, 32, 32, bytes.tail.map fun b => b.toFloat32 / 255.0,
        Int64.ofNat (bytes.headD 0).toNat⟩ := by
  unfold sample
  dsimp only
  split
  · rename_i hlabel
    exact ⟨fun h => (by cases h), fun h => absurd h.1 (UInt8.not_lt.mpr hlabel)⟩
  · rename_i hlabel
    rw [Except.ok.injEq]
    exact ⟨fun h => ⟨UInt8.not_le.mp hlabel, h.symm⟩, fun h => h.2.symm⟩

theorem toInt_label (b : UInt8) : (Int64.ofNat b.toNat).toInt = b.toNat :=
  Int64.toInt_ofNat_of_lt (Nat.lt_trans (UInt8.toNat_lt b) (by decide))

theorem length_data_of_sample {index : Nat} {bytes : Bytes} {x : Sample}
    (h : sample index bytes = .ok x) (hlen : bytes.length = recordBytes) :
    x.data.length = 3 * 32 * 32 := by
  obtain ⟨-, rfl⟩ := sample_eq_ok.mp h
  rw [List.length_map, List.length_tail, hlen]
  rfl

theorem load_eq_ok {data : ByteArray} {limit : Nat} {xs : List Sample}
    (h : load data limit = .ok xs) :
    xs.length = min limit (data.size / recordBytes) ∧ ∀ x ∈ xs, x.data.length = 3 * 32 * 32 := by
  unfold load at h
  obtain ⟨samples, hsamples, h⟩ := bind_eq_ok.mp h
  have heq : samples = xs := by
    split at h
    · cases h
    · cases h
      rfl
  subst heq
  have hall := mapM_eq_ok.mp hsamples
  refine ⟨?_, fun x hx => ?_⟩
  · rw [← hall.length_eq, List.length_range, if_neg (by omega), Int.toNat_natCast, Nat.min_comm]
  · obtain ⟨i, hi, hx⟩ := exists_left_of_forall₂ hall hx
    rw [List.mem_range, if_neg (by omega), Nat.lt_min] at hi
    exact length_data_of_sample hx (length_record hi.1)

end Cifar10

theorem loadSamples_eq_ok {loader : Loader} {data : ByteArray} {limit : Nat} {xs : List Sample}
    (h : loadSamples loader data limit = .ok xs) :
    xs.length = min limit (loader.held data) ∧ ∀ x ∈ xs, x.data.length = loader.values := by
  cases loader with
  | cntk =>
    obtain ⟨new, rfl, hlen, hdata⟩ := Cntk.loadFrom_eq_ok (Nat.zero_le limit) h
    exact ⟨hlen, hdata⟩
  | cifar10 => exact Cifar10.load_eq_ok h
  | unknown code => cases h

end NetImage
