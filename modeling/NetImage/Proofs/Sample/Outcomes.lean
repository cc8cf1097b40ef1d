import NetImage.Proofs.Sample
import NetImage.Proofs.Text.Pieces

/-!
# NetImage.Proofs.Sample.Outcomes

What data gives, sample by sample. Both formats are read from the front, and a limit only says how far:
loading gives the outcomes up to the limit, and fails with the first of them that is a failure.

* `Loader.outcomes`: a sample or an error for each filled line, and for each record.
* `loadSamples_eq`: loading is reading the outcomes up to the limit.
* `Loader.outcomes_append`: what stands behind finished data comes behind its outcomes.
-/

namespace NetImage

/-- What a limit leaves of a list when `count` elements have been read before it. A negative limit is
none. -/
def upToLimit {α : Type} (limit : Int) (count : Nat) (xs : List α) : List α :=
  if limit < 0 then xs else xs.take (limit.toNat - count)

theorem upToLimit_nil {α : Type} (limit : Int) (count : Nat) :
    upToLimit limit count ([] : List α) = [] := by
  simp [upToLimit]

theorem upToLimit_of_full {α : Type} {limit : Int} {count : Nat}
    (h : withinLimit limit count = false) (xs : List α) : upToLimit limit count xs = [] := by
  simp only [withinLimit, Bool.or_eq_false_iff, decide_eq_false_iff_not] at h
  have hzero : limit.toNat - count = 0 := by omega
  rw [upToLimit, if_neg h.1, hzero, List.take_zero]

theorem upToLimit_cons {α : Type} {limit : Int} {count : Nat}
    (h : withinLimit limit count = true) (x : α) (xs : List α) :
    upToLimit limit count (x :: xs) = x :: upToLimit limit (count + 1) xs := by
  simp only [withinLimit, Bool.or_eq_true, decide_eq_true_eq] at h
  unfold upToLimit
  split
  · rfl
  · have hsucc : limit.toNat - count = (limit.toNat - (count + 1)) + 1 := by omega
    rw [hsucc, List.take_succ_cons]

/-- A limit that stops in front of the last element or behind it. -/
theorem upToLimit_map_range {α : Type} (limit : Int) {n : Nat} (f : Nat → α) {last : List α}
    (hlast : last.length ≤ 1) :
    upToLimit limit 0 ((List.range n).map f ++ last) =
      (List.range (if limit < 0 then n else min n limit.toNat)).map f ++
        if withinLimit limit n then last else [] := by
  unfold upToLimit withinLimit
  by_cases hlimit : limit < 0
  · simp [hlimit]
  · rw [if_neg hlimit, if_neg hlimit, Nat.sub_zero, List.take_append, ← List.map_take,
      List.take_range, Nat.min_comm, List.length_map, List.length_range]
    congr 1
    by_cases hroom : (n : Int) < limit
    · rw [if_pos (by simp [hroom]), List.take_of_length_le (by omega)]
    · have hzero : limit.toNat - n = 0 := by omega
      rw [if_neg (by simp [hlimit, Int.not_lt.mp hroom]), hzero, List.take_zero]

/-! ## Lines -/

namespace Cntk

/-- What the lines give, the first of them having this number. -/
def outcomes : Nat → List Bytes → List (Except SampleError Sample)
  | _, [] => []
  | number, line :: rest => (outcome number line).toList ++ outcomes (number + 1) rest

theorem outcomes_append (number : Nat) (ls more : List Bytes) :
    outcomes number (ls ++ more) = outcomes number ls ++ outcomes (number + ls.length) more := by
  induction ls generalizing number with
  | nil => rfl
  | cons line ls ih =>
    rw [List.cons_append, outcomes, outcomes, ih, List.append_assoc, List.length_cons,
      Nat.add_assoc, Nat.add_comm 1]

theorem loadFrom_eq (limit : Int) (s : State) (ls : List Bytes) :
    loadFrom limit s ls = ((upToLimit limit s.count (outcomes s.number ls)).mapM id).map
      (s.samples.reverse ++ ·) := by
  induction ls generalizing s with
  | nil => simp [loadFrom, outcomes, upToLimit_nil, pure, Except.pure, Except.map]
  | cons line rest ih =>
    -- the limit is looked at before the line, so a line behind it is not seen even if it is wrong
    cases hroom : withinLimit limit s.count with
    | false =>
      rw [loadFrom_of_full hroom, upToLimit_of_full hroom]
      simp [pure, Except.pure, Except.map]
    | true =>
      rw [outcomes]
      cases hline : outcome s.number line with
      | none =>
        rw [loadFrom_of_blank hroom hline, ih]
        rfl
      | some result =>
        rw [Option.toList_some, List.singleton_append, upToLimit_cons hroom, List.mapM_cons]
        cases result with
        | error e =>
          rw [loadFrom_of_error hroom hline]
          rfl
        | ok x =>
          rw [loadFrom_of_sample hroom hline, ih]
          cases (upToLimit limit (s.count + 1) (outcomes (s.number + 1) rest)).mapM id with
          | error e => rfl
          | ok xs => simp [Except.map, bind, Except.bind, pure, Except.pure]

theorem load_eq (data : ByteArray) (limit : Int) :
    load data limit = (upToLimit limit 0 (outcomes 1 (lines data.data.toList))).mapM id := by
  rw [load, loadFrom_eq]
  cases (upToLimit limit 0 (outcomes 1 (lines data.data.toList))).mapM id <;> rfl

/-- Lines that are ended stay as they are, whatever follows. -/
theorem lines_append {s : Bytes} (h : ∀ b ∈ s.getLast?, b = 0x0a) (more : Bytes) :
    lines (s ++ more) = lines s ++ lines more := by
  rcases List.eq_nil_or_concat s with rfl | ⟨s, b, rfl⟩
  · rfl
  · obtain rfl : b = 0x0a := h b (by simp)
    have hne : Bytes.split 0x0a more ≠ [] := Bytes.split_ne_nil 0x0a more
    have hended : lines (s ++ [0x0a]) = Bytes.split 0x0a s := by
      simp only [lines, Bytes.split_append_cons]
      simp [Bytes.split]
    rw [List.concat_eq_append, hended, List.append_assoc, List.singleton_append]
    simp only [lines, Bytes.split_append_cons, List.getLast?_append_of_ne_nil _ hne,
      List.dropLast_append_of_ne_nil hne]
    split <;> rfl

end Cntk

/-- A line with a dark image of the second class. -/
def darkLine : Bytes := ascii "|labels 0 1 |features" ++ (List.replicate 784 [0x20, 0x30]).flatten

/-- The line as a file. -/
def darkData : ByteArray := ⟨(darkLine ++ [0x0a]).toArray⟩

/-- What a zero is read as. -/
def zeroPixel : Float32 := (readFloat32 [0x30]).toOption.getD 0

def darkSample : Sample :=
  ⟨1, 28, 28, (List.replicate 784 zeroPixel).map fun x => narrow (widen x / Cntk.pixelMax), 1⟩

namespace Cntk

theorem readReals_replicate {fault : NumberError → LineError} {text : Bytes} {x : Float32}
    (h : readFloat32 text = .ok x) (n : Nat) :
    readReals fault (List.replicate n text) = .ok (List.replicate n x) := by
  refine mapM_eq_ok.mpr ?_
  induction n with
  | zero => exact .nil
  | succ n ih => exact .cons (by rw [h]) ih

theorem sample_darkLine : sample darkLine = .ok darkSample := by
  have hparts : parts darkLine =
      some (ascii " 0 1 ", (List.replicate 784 [0x20, 0x30]).flatten) := by
    decide +kernel
  have hfields : fields (List.replicate 784 [0x20, 0x30]).flatten = List.replicate 784 [0x30] := by
    decide +kernel
  have hhot : (readReals .label (fields (ascii " 0 1 "))).map hotIndex = .ok (some 1) := by
    decide +kernel
  have hzero : readFloat32 [0x30] = .ok zeroPixel := rfl
  obtain ⟨hot, hread, hlabel⟩ := map_eq_ok.mp hhot
  unfold sample
  simp only [hparts, hread, hfields, Except.bind, bind, hlabel, List.length_replicate,
    readReals_replicate hzero]
  rfl

theorem outcome_darkLine (number : Nat) : outcome number darkLine = some (.ok darkSample) := by
  have hlength : ¬lineLimit ≤ darkLine.length := by decide +kernel
  have htrim : trim darkLine = darkLine := by decide +kernel
  have hfilled : isFilled darkLine = true := by decide +kernel
  rw [outcome, if_neg hlength, if_pos hfilled, htrim, sample_darkLine]
  rfl

theorem lines_darkData : lines darkData.data.toList = [darkLine] := by decide +kernel

end Cntk

/-! ## Records -/

namespace Cifar10

/-- What the records give, the first of them having this number. Bytes that make no whole record are
an error behind all others. -/
def outcomes (first : Nat) (data : ByteArray) : List (Except SampleError Sample) :=
  (List.range (data.size / recordBytes)).map (fun i => sample (first + i) (record data i)) ++
    if data.size % recordBytes = 0 then []
    else [.error (.shortRecord (first + data.size / recordBytes))]

theorem load_eq (data : ByteArray) (limit : Int) :
    load data limit = (upToLimit limit 0 (outcomes 0 data)).mapM id := by
  have hlast : (if data.size % recordBytes = 0 then []
      else [(.error (.shortRecord (0 + data.size / recordBytes)) :
        Except SampleError Sample)]).length ≤ 1 := by
    split <;> simp
  rw [outcomes, upToLimit_map_range _ _ hlast, List.mapM_append, List.mapM_map]
  simp only [Nat.zero_add]
  unfold load
  refine bind_congr fun samples => ?_
  cases hroom : withinLimit limit (data.size / recordBytes) with
  | false => simp
  | true =>
    by_cases hrest : data.size % recordBytes = 0
    · simp [hrest]
    · rw [Bool.true_and, if_pos (decide_eq_true hrest), if_pos rfl, if_neg hrest]
      rfl

theorem record_append_left {data : ByteArray} {i : Nat} (h : i < data.size / recordBytes)
    (more : ByteArray) : record (data ++ more) i = record data i := by
  have hfits : (i + 1) * recordBytes ≤ data.size := (Nat.le_div_iff_mul_le (by decide)).mp h
  have hnone : (i + 1) * recordBytes - data.size = 0 := Nat.sub_eq_zero_of_le hfits
  rw [record, ByteArray.extract_append, hnone]
  simp [record]

theorem record_append_right {data : ByteArray} (h : data.size % recordBytes = 0)
    (more : ByteArray) (i : Nat) :
    record (data ++ more) (data.size / recordBytes + i) = record more i := by
  have hsize : data.size / recordBytes * recordBytes = data.size :=
    Nat.div_mul_cancel (Nat.dvd_of_mod_eq_zero h)
  rw [record, ByteArray.extract_append, Nat.add_assoc, Nat.add_mul, Nat.add_mul, hsize,
    Nat.add_sub_cancel_left, Nat.add_sub_cancel_left]
  simp [record]

theorem outcomes_append {data : ByteArray} (h : data.size % recordBytes = 0) (first : Nat)
    (more : ByteArray) :
    outcomes first (data ++ more) =
      outcomes first data ++ outcomes (first + data.size / recordBytes) more := by
  have hdvd : recordBytes ∣ data.size := Nat.dvd_of_mod_eq_zero h
  have hfull : (data ++ more).size / recordBytes =
      data.size / recordBytes + more.size / recordBytes := by
    rw [ByteArray.size_append, Nat.add_div_of_dvd_right hdvd]
  have hrest : (data ++ more).size % recordBytes = more.size % recordBytes := by
    rw [ByteArray.size_append, Nat.add_mod, h, Nat.zero_add, Nat.mod_mod]
  have hold : (List.range (data.size / recordBytes)).map
        (fun i => sample (first + i) (record (data ++ more) i)) =
      (List.range (data.size / recordBytes)).map fun i => sample (first + i) (record data i) :=
    List.map_congr_left fun i hi => by rw [record_append_left (List.mem_range.mp hi)]
  have hnew : ∀ i, sample (first + (data.size / recordBytes + i))
        (record (data ++ more) (data.size / recordBytes + i)) =
      sample (first + data.size / recordBytes + i) (record more i) := by
    intro i
    rw [record_append_right h, Nat.add_assoc]
  unfold outcomes
  rw [hfull, hrest, if_pos h, List.append_nil, List.range_add, List.map_append, hold, List.map_map,
    List.append_assoc, ← Nat.add_assoc first]
  simp only [Function.comp_def, hnew]

/-- A record with the same intensity everywhere. -/
def plainRecord (label pixel : UInt8) : ByteArray := ⟨(label :: List.replicate 3072 pixel).toArray⟩

/-- The sample of such a record. -/
def plainSample (label pixel : UInt8) : Sample :=
  ⟨3, 32, 32, List.replicate 3072 (pixel.toFloat32 / 255.0), Int64.ofNat label.toNat⟩

theorem size_plainRecord (label pixel : UInt8) : (plainRecord label pixel).size = recordBytes := by
  show (label :: List.replicate 3072 pixel).toArray.size = recordBytes
  rw [List.size_toArray, List.length_cons, List.length_replicate]
  rfl

theorem outcomes_plainRecord {label : UInt8} (h : label < classes) (pixel : UInt8) (first : Nat) :
    outcomes first (plainRecord label pixel) = [.ok (plainSample label pixel)] := by
  have hrecord : record (plainRecord label pixel) 0 = label :: List.replicate 3072 pixel := by
    rw [record, Nat.zero_mul, Nat.zero_add, Nat.one_mul, ← size_plainRecord label pixel,
      ByteArray.extract_zero_size]
    rfl
  have hsample : sample (first + 0) (record (plainRecord label pixel) 0) =
      .ok (plainSample label pixel) := by
    rw [hrecord, sample_eq_ok]
    refine ⟨h, ?_⟩
    rw [List.tail_cons, List.map_replicate]
    rfl
  rw [outcomes, size_plainRecord, Nat.div_self (by decide), Nat.mod_self, if_pos rfl,
    List.append_nil, List.range_one, List.map_singleton, hsample]

end Cifar10

/-! ## Either format -/

/-- What data gives in the given format. -/
def Loader.outcomes (loader : Loader) (data : ByteArray) : List (Except SampleError Sample) :=
  match loader with
  | .cntk => Cntk.outcomes 1 (Cntk.lines data.data.toList)
  | .cifar10 => Cifar10.outcomes 0 data
  | .unknown code => [.error (.unknownLoader code)]

/-- Data that ends with a whole line or a whole record. -/
def Loader.Ended (loader : Loader) (data : ByteArray) : Prop :=
  match loader with
  | .cntk => ∀ b ∈ data.data.toList.getLast?, b = 0x0a
  | .cifar10 => data.size % Cifar10.recordBytes = 0
  | .unknown _ => True

theorem Loader.outcomes_append {loader : Loader} {data : ByteArray} (h : loader.Ended data)
    (more : ByteArray) : loader.outcomes data <+: loader.outcomes (data ++ more) := by
  cases loader with
  | cntk =>
    unfold outcomes
    rw [ByteArray.toList_data_append, Cntk.lines_append h, Cntk.outcomes_append]
    exact List.prefix_append _ _
  | cifar10 =>
    unfold outcomes
    rw [Cifar10.outcomes_append h]
    exact List.prefix_append _ _
  | unknown code => exact List.prefix_rfl

theorem ne_unknown_of_loadSamples {loader : Loader} {data : ByteArray} {limit : Int}
    {xs : List Sample} (h : loadSamples loader data limit = .ok xs) (code : Int) :
    loader ≠ .unknown code := by
  rintro rfl
  cases h

theorem loadSamples_eq {loader : Loader} (h : ∀ code, loader ≠ .unknown code) (data : ByteArray)
    (limit : Int) :
    loadSamples loader data limit = (upToLimit limit 0 (loader.outcomes data)).mapM id := by
  cases loader with
  | cntk => exact Cntk.load_eq data limit
  | cifar10 => exact Cifar10.load_eq data limit
  | unknown code => exact absurd rfl (h code)

theorem Loader.outcomes_darkData : cntk.outcomes darkData = [.ok darkSample] := by
  rw [outcomes, Cntk.lines_darkData, Cntk.outcomes, Cntk.outcome_darkLine]
  rfl

end NetImage
