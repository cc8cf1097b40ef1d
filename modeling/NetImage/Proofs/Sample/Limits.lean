import NetImage.Proofs.Sample.Outcomes
import NetImage.Proofs.Text.Tokens

/-!
# NetImage.Proofs.Sample.Limits

A limit cuts the samples. What is loaded with a lower limit is the front of what is loaded with a higher
one or with none, and nothing behind the last sample that is asked for can make a difference.

* `Sample.WellFormed`: as many values as the extents say, and a label.
* `Loader.wellFormed_of_outcome`: every sample that is read is well formed.
* `loadSamples_limited`: two runs with different limits.
-/

namespace NetImage

/-- A sample with as many values as its extents say, and with a label. -/
structure Sample.WellFormed (x : Sample) : Prop where
  values : (x.data.length : Int) = x.channels.toInt * x.height.toInt * x.width.toInt
  label : 0 ≤ x.label.toInt

/-! ## Samples of a line -/

namespace Cntk

theorem hotIndex_lt {xs : List Float32} {i : Nat} (h : hotIndex xs = some i) : i < xs.length := by
  have hall : ∀ i ∈ hotIndex xs, i < xs.length := by
    refine List.foldlRecOn (motive := fun found => ∀ i ∈ found, i < xs.length) xs.zipIdx _
      (by simp) ?_
    intro found hfound p hp i hi
    dsimp only at hi
    split at hi
    · cases hi
      exact List.snd_lt_of_mem_zipIdx hp
    · exact hfound i hi
  exact hall i h

theorem length_labels_le {text labels features : Bytes} (h : parts text = some (labels, features)) :
    labels.length ≤ text.length := by
  unfold parts at h
  obtain ⟨i, -, h⟩ := Option.bind_eq_some_iff.mp h
  obtain ⟨j, -, h⟩ := Option.bind_eq_some_iff.mp h
  dsimp only at h
  split at h
  · cases h
    simp [Bytes.slice]
  · cases h
    simp

/-- A line that may be read is too short for a label beyond the range of numbers. -/
theorem wellFormed_of_outcome {number : Nat} {line : Bytes} {x : Sample}
    (h : outcome number line = some (.ok x)) : x.WellFormed := by
  obtain ⟨hshort, -, hx⟩ := outcome_eq_ok h
  have hvalues := length_data_of_sample hx
  obtain ⟨labels, features, hot, label, pixels, hparts, hhot, hlabel, -, -, rfl⟩ := sample_eq_ok hx
  have hlt : label < lineLimit :=
    calc label < hot.length := hotIndex_lt hlabel
      _ = (fields labels).length := length_readReals hhot
      _ ≤ labels.length := length_fields_le labels
      _ ≤ (trim line).length := length_labels_le hparts
      _ ≤ line.length := length_trim_le line
      _ < lineLimit := hshort
  refine ⟨by rw [hvalues]; rfl, ?_⟩
  show 0 ≤ (Int64.ofNat label).toInt
  rw [Int64.toInt_ofNat_of_lt (Nat.lt_trans hlt (by decide))]
  exact Int.natCast_nonneg label

theorem exists_of_mem_outcomes {number : Nat} {ls : List Bytes} {o : Except SampleError Sample}
    (h : o ∈ outcomes number ls) : ∃ k line, outcome k line = some o := by
  induction ls generalizing number with
  | nil => cases h
  | cons line rest ih =>
    rw [outcomes, List.mem_append, Option.mem_toList] at h
    rcases h with h | h
    · exact ⟨number, line, h⟩
    · exact ih h

end Cntk

/-! ## Samples of a record -/

namespace Cifar10

theorem wellFormed_of_sample {index : Nat} {bytes : Bytes} {x : Sample}
    (h : sample index bytes = .ok x) (hlen : bytes.length = recordBytes) : x.WellFormed := by
  have hvalues := length_data_of_sample h hlen
  obtain ⟨-, rfl⟩ := sample_eq_ok.mp h
  refine ⟨by rw [hvalues]; rfl, ?_⟩
  show 0 ≤ (Int64.ofNat (bytes.headD 0).toNat).toInt
  rw [toInt_label]
  exact Int.natCast_nonneg _

theorem exists_of_mem_outcomes {first : Nat} {data : ByteArray} {x : Sample}
    (h : .ok x ∈ outcomes first data) :
    ∃ i < data.size / recordBytes, sample (first + i) (record data i) = .ok x := by
  rw [outcomes, List.mem_append] at h
  rcases h with h | h
  · obtain ⟨i, hi, hx⟩ := List.mem_map.mp h
    exact ⟨i, List.mem_range.mp hi, hx⟩
  · split at h <;> simp at h

end Cifar10

theorem Loader.wellFormed_of_outcome {loader : Loader} {data : ByteArray} {x : Sample}
    (h : .ok x ∈ loader.outcomes data) : x.WellFormed := by
  cases loader with
  | cntk =>
    obtain ⟨k, line, hline⟩ := Cntk.exists_of_mem_outcomes h
    exact Cntk.wellFormed_of_outcome hline
  | cifar10 =>
    obtain ⟨i, hi, hx⟩ := Cifar10.exists_of_mem_outcomes h
    exact Cifar10.wellFormed_of_sample hx (Cifar10.length_record hi)
  | unknown code => cases List.mem_singleton.mp h

/-! ## Two limits -/

theorem upToLimit_sublist {α : Type} (limit : Int) (count : Nat) (xs : List α) :
    (upToLimit limit count xs).Sublist xs := by
  unfold upToLimit
  split
  · exact List.Sublist.refl xs
  · exact List.take_sublist _ _

theorem upToLimit_lower {α : Type} {m n : Int} (hm : 0 ≤ m) (hn : 0 ≤ n → m ≤ n) (xs : List α) :
    upToLimit m 0 xs = (upToLimit n 0 xs).take m.toNat := by
  unfold upToLimit
  rw [if_neg (Int.not_lt.mpr hm), Nat.sub_zero, Nat.sub_zero]
  split
  · rfl
  · rw [List.take_take, Nat.min_eq_left (by omega)]

theorem length_upToLimit_le {α : Type} {limit : Int} (h : 0 ≤ limit) (xs : List α) :
    (upToLimit limit 0 xs).length ≤ limit := by
  rw [upToLimit, if_neg (Int.not_lt.mpr h), List.length_take]
  omega

/-- A list with more elements behind it is cut as it is alone, if the limit is reached in it. -/
theorem upToLimit_extended {α : Type} {m : Int} {xs ys : List α} (h : xs <+: ys) (hm : 0 ≤ m)
    (hle : m ≤ xs.length) : upToLimit m 0 ys = upToLimit m 0 xs := by
  obtain ⟨rest, rfl⟩ := h
  rw [upToLimit, upToLimit, if_neg (Int.not_lt.mpr hm), if_neg (Int.not_lt.mpr hm),
    List.take_append_of_le_length (by omega)]

/-- **A limit cuts the samples.** With a lower limit the samples are the front of those that a higher
limit or none gives. They are the same whatever stands behind data that holds enough of them, each of
them is well formed, and there are never more than the limit. -/
theorem loadSamples_limited {loader : Loader} {data : ByteArray} {n : Int} {xs : List Sample}
    (h : loadSamples loader data n = .ok xs) :
    (∀ m : Int, 0 ≤ m → (0 ≤ n → m ≤ n) →
      loadSamples loader data m = .ok (xs.take (min m.toNat xs.length))) ∧
    (∀ (more : ByteArray) (m : Int), loader.Ended data → 0 ≤ m → m ≤ xs.length →
      loadSamples loader (data ++ more) m = .ok (xs.take m.toNat)) ∧
    (∀ x ∈ xs, x.WellFormed) ∧ (0 ≤ n → xs.length ≤ n) := by
  have heq := loadSamples_eq (ne_unknown_of_loadSamples h)
  rw [heq, mapM_eq_ok] at h
  have hcut : ∀ m : Int, 0 ≤ m → (0 ≤ n → m ≤ n) →
      (upToLimit m 0 (loader.outcomes data)).mapM id = .ok (xs.take m.toNat) := by
    intro m hm hmn
    rw [mapM_eq_ok, upToLimit_lower hm hmn]
    exact List.forall₂_take m.toNat h
  have hlen : 0 ≤ n → xs.length ≤ n := by
    intro hn
    rw [← h.length_eq]
    exact length_upToLimit_le hn _
  have hheld : xs.length ≤ (loader.outcomes data).length := by
    rw [← h.length_eq]
    exact (upToLimit_sublist n 0 _).length_le
  refine ⟨?_, ?_, ?_, hlen⟩
  · intro m hm hmn
    rw [heq, hcut m hm hmn, ← List.take_take, List.take_length]
  · intro more m hended hm hle
    rw [heq, upToLimit_extended (Loader.outcomes_append hended more) hm (by omega)]
    exact hcut m hm fun hn => hle.trans (hlen hn)
  · intro x hx
    obtain ⟨o, ho, rfl⟩ := exists_left_of_forall₂ h hx
    exact Loader.wellFormed_of_outcome ((upToLimit_sublist n 0 _).subset ho)

/-- Two dark images with a blank line between them. -/
def darkText : ByteArray := darkData ++ ⟨#[0x20, 0x0a]⟩ ++ darkData

/-- A line without a label. -/
def faultyLine : ByteArray := ⟨#[0x7c, 0x0a]⟩

theorem ended_darkData : Loader.cntk.Ended darkData := by
  intro b hb
  rw [darkData, List.getLast?_append_of_ne_nil _ (List.cons_ne_nil _ _)] at hb
  exact (Option.mem_some_iff.mp hb).symm

theorem ended_darkText : Loader.cntk.Ended darkText := by
  have hne : darkData.data.toList ≠ [] := by
    rw [darkData]
    exact List.append_ne_nil_of_right_ne_nil _ (List.cons_ne_nil _ _)
  intro b hb
  rw [darkText, ByteArray.toList_data_append, List.getLast?_append_of_ne_nil _ hne] at hb
  exact ended_darkData b hb

/-- Two samples, and what the lines behind the text give. -/
theorem outcomes_darkText (more : ByteArray) : Loader.cntk.outcomes (darkText ++ more) =
    .ok darkSample :: .ok darkSample :: Cntk.outcomes 4 (Cntk.lines more.data.toList) := by
  have hblank : Cntk.outcome 2 [0x20] = none := rfl
  have hended : ∀ b ∈ ([0x20, 0x0a] : Bytes).getLast?, b = 0x0a :=
    fun b hb => (Option.mem_some_iff.mp hb).symm
  have hlines : Cntk.lines (darkText ++ more).data.toList =
      darkLine :: [0x20] :: darkLine :: Cntk.lines more.data.toList := by
    simp only [darkText, ByteArray.toList_data_append, List.append_assoc]
    rw [Cntk.lines_append ended_darkData, Cntk.lines_append hended,
      Cntk.lines_append ended_darkData, Cntk.lines_darkData]
    rfl
  rw [Loader.outcomes, hlines]
  simp only [Cntk.outcomes, Cntk.outcome_darkLine, hblank]
  rfl

/-- Two records with a byte behind them that is no record, and two lines with a blank one between them
and a faulty one behind. -/
theorem plainRecords_limited :
    loadSamples .cifar10 (Cifar10.plainRecord 7 1 ++ Cifar10.plainRecord 9 255) (-1) =
      .ok [Cifar10.plainSample 7 1, Cifar10.plainSample 9 255] ∧
    loadSamples .cifar10 (Cifar10.plainRecord 7 1 ++ Cifar10.plainRecord 9 255) 1 =
      .ok [Cifar10.plainSample 7 1] ∧
    loadSamples .cifar10 (Cifar10.plainRecord 7 1 ++ Cifar10.plainRecord 9 255 ++ ⟨#[200]⟩) 2 =
      .ok [Cifar10.plainSample 7 1, Cifar10.plainSample 9 255] ∧
    (Cifar10.plainSample 9 255).WellFormed ∧
    loadSamples .cntk darkText (-1) = .ok [darkSample, darkSample] ∧
    loadSamples .cntk darkText 1 = .ok [darkSample] ∧
    loadSamples .cntk (darkText ++ faultyLine) 2 = .ok [darkSample, darkSample] ∧
    loadSamples .cntk (darkText ++ faultyLine) (-1) = .error (.line 4 .noMarkers) := by
  have hended : ∀ label pixel, (Cifar10.plainRecord label pixel).size % Cifar10.recordBytes = 0 := by
    intro label pixel
    rw [Cifar10.size_plainRecord, Nat.mod_self]
  have hload : loadSamples .cifar10 (Cifar10.plainRecord 7 1 ++ Cifar10.plainRecord 9 255) (-1) =
      .ok [Cifar10.plainSample 7 1, Cifar10.plainSample 9 255] := by
    rw [loadSamples_eq (by simp), Loader.outcomes, Cifar10.outcomes_append (hended 7 1),
      Cifar10.outcomes_plainRecord (by decide), Cifar10.outcomes_plainRecord (by decide)]
    rfl
  have hwhole : Loader.cifar10.Ended (Cifar10.plainRecord 7 1 ++ Cifar10.plainRecord 9 255) := by
    rw [Loader.Ended, ByteArray.size_append, Nat.add_mod, hended, hended, Nat.zero_mod]
  have hdark : loadSamples .cntk darkText (-1) = .ok [darkSample, darkSample] := by
    rw [← ByteArray.append_empty (b := darkText), loadSamples_eq (by simp), outcomes_darkText]
    rfl
  have hfaulty : loadSamples .cntk (darkText ++ faultyLine) (-1) = .error (.line 4 .noMarkers) := by
    rw [loadSamples_eq (by simp), outcomes_darkText]
    rfl
  obtain ⟨hlower, hmore, hformed, -⟩ := loadSamples_limited hload
  obtain ⟨hlower', hmore', -, -⟩ := loadSamples_limited hdark
  exact ⟨hload, hlower 1 (by decide) (by decide), hmore ⟨#[200]⟩ 2 hwhole (by decide) (by decide),
    hformed _ (by simp), hdark, hlower' 1 (by decide) (by decide),
    hmore' faultyLine 2 ended_darkText (by decide) (by decide), hfaulty⟩

end NetImage
