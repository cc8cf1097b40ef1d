import NetImage.Proofs.Sample.Outcomes

/-!
# NetImage.Proofs.Sample.Records

Records of images. Data is read if and only if it consists of whole records whose labels are in range,
each record gives its own bytes, and data that is read does not change what follows it.

* `Cifar10.Labelled`: the data that can be read.
* `Cifar10.Decodes`: the samples, byte for byte.
* `Cifar10.load_iff_labelled`: reading without a limit.
-/

namespace NetImage
namespace Cifar10

/-- The data consists of whole records, and each starts with a label below ten. -/
structure Labelled (data : ByteArray) : Prop where
  whole : data.size % 3073 = 0
  label : ∀ i b, data.data[i * 3073]? = some b → b < 10

/-- The sample is that of the record at this place: its first byte is the label, and the others are
the intensities as parts of the largest one. -/
structure HoldsAt (data : ByteArray) (start : Nat) (x : Sample) : Prop where
  extents : x.channels = 3 ∧ x.height = 32 ∧ x.width = 32
  label : ∃ b, data.data[start]? = some b ∧ x.label.toInt = b.toNat
  count : x.data.length = 3072
  value : ∀ k < 3072, ∃ b, data.data[start + 1 + k]? = some b ∧
    x.data[k]? = some (b.toFloat32 / 255.0)

/-- The samples are those of the records, one for each and in their order. -/
structure Decodes (data : ByteArray) (xs : List Sample) : Prop where
  count : xs.length * 3073 = data.size
  sample : ∀ i x, xs[i]? = some x → HoldsAt data (i * 3073) x

theorem getElem?_record {data : ByteArray} {k : Nat} (hk : k < recordBytes) (i : Nat) :
    (record data i)[k]? = data.data[i * recordBytes + k]? := by
  rw [record, ByteArray.data_extract, Array.toList_extract, List.extract_eq_take_drop,
    List.getElem?_take, if_pos (by rw [Nat.add_mul, Nat.one_mul]; omega), List.getElem?_drop,
    Array.getElem?_toList]

theorem headD_record {data : ByteArray} {i : Nat} (h : i < data.size / recordBytes) :
    data.data[i * recordBytes]? = some ((record data i).headD 0) := by
  have hlen := length_record h
  have hget := @getElem?_record data 0 (by decide) i
  rw [Nat.add_zero] at hget
  rw [← hget]
  cases hrecord : record data i with
  | nil =>
    rw [hrecord] at hlen
    cases hlen
  | cons b rest => rfl

theorem holdsAt_of_sample {data : ByteArray} {i : Nat} (hi : i < data.size / recordBytes)
    {index : Nat} {x : Sample} (h : Cifar10.sample index (record data i) = .ok x) :
    HoldsAt data (i * 3073) x := by
  have hlen := length_record hi
  have hcount := length_data_of_sample h hlen
  obtain ⟨-, rfl⟩ := sample_eq_ok.mp h
  refine ⟨⟨rfl, rfl, rfl⟩, ⟨_, headD_record hi, toInt_label _⟩, hcount, fun k hk => ?_⟩
  have hget : (record data i)[k + 1]? = data.data[i * 3073 + 1 + k]? := by
    rw [getElem?_record (by rw [recordBytes]; omega), Nat.add_comm k, Nat.add_assoc]
    rfl
  obtain ⟨b, hb⟩ : ∃ b, (record data i)[k + 1]? = some b :=
    ⟨_, List.getElem?_eq_getElem (by rw [hlen, recordBytes]; omega)⟩
  refine ⟨b, hget.symm.trans hb, ?_⟩
  rw [List.getElem?_map, List.getElem?_tail, hb]
  rfl

/-- Reading succeeds with the samples of all records, whatever number the first one has. -/
theorem mapM_outcomes_eq_ok {first : Nat} {data : ByteArray} {xs : List Sample} :
    (outcomes first data).mapM id = .ok xs ↔ data.size % recordBytes = 0 ∧
      List.Forall₂ (fun i x => Cifar10.sample 0 (record data i) = .ok x)
        (List.range (data.size / recordBytes)) xs := by
  have hindex : ∀ i x, Cifar10.sample (first + i) (record data i) = .ok x ↔
      Cifar10.sample 0 (record data i) = .ok x := by
    intro i x
    rw [sample_eq_ok, sample_eq_ok]
  rw [outcomes]
  by_cases hrest : data.size % recordBytes = 0
  · rw [if_pos hrest, List.append_nil, List.mapM_map, mapM_eq_ok]
    simp only [Function.id_comp, hindex, hrest, true_and]
  · rw [if_neg hrest]
    constructor
    · intro h
      obtain ⟨x, -, hx⟩ := exists_right_of_forall₂ (mapM_eq_ok.mp h)
        (List.mem_append_right _ (List.mem_singleton_self _))
      cases hx
    · exact fun h => absurd h.1 hrest

theorem load_unlimited {limit : Int} (h : limit < 0) (data : ByteArray) :
    load data limit = (outcomes 0 data).mapM id := by
  rw [load_eq, upToLimit, if_pos h]

theorem exists_mapM_outcomes_iff {data : ByteArray} :
    (∃ xs, (outcomes 0 data).mapM id = .ok xs) ↔ Labelled data := by
  constructor
  · rintro ⟨xs, hxs⟩
    obtain ⟨hwhole, hsamples⟩ := mapM_outcomes_eq_ok.mp hxs
    refine ⟨hwhole, fun i b hb => ?_⟩
    have hi : i < data.size / recordBytes := by
      have hlt : i * recordBytes < data.size := (Array.getElem?_eq_some_iff.mp hb).1
      rw [← Nat.div_mul_cancel (Nat.dvd_of_mod_eq_zero hwhole)] at hlt
      exact Nat.lt_of_mul_lt_mul_right hlt
    obtain ⟨x, -, hx⟩ := exists_right_of_forall₂ hsamples (List.mem_range.mpr hi)
    obtain rfl : b = (record data i).headD 0 := Option.some.inj (hb.symm.trans (headD_record hi))
    exact (sample_eq_ok.mp hx).1
  · rintro ⟨hwhole, hlabel⟩
    have hall : ∀ i ∈ List.range (data.size / recordBytes),
        ∃ x, Cifar10.sample 0 (record data i) = .ok x := by
      intro i hi
      exact ⟨_, sample_eq_ok.mpr ⟨hlabel i _ (headD_record (List.mem_range.mp hi)), rfl⟩⟩
    obtain ⟨xs, hxs⟩ := exists_mapM_iff.mpr hall
    exact ⟨xs, mapM_outcomes_eq_ok.mpr ⟨hwhole, mapM_eq_ok.mp hxs⟩⟩

theorem decodes_of_mapM_outcomes {first : Nat} {data : ByteArray} {xs : List Sample}
    (h : (outcomes first data).mapM id = .ok xs) : Decodes data xs := by
  obtain ⟨hwhole, hsamples⟩ := mapM_outcomes_eq_ok.mp h
  obtain ⟨hlen, hget⟩ := List.forall₂_iff_get.mp hsamples
  rw [List.length_range] at hlen
  refine ⟨?_, fun i x hx => ?_⟩
  · rw [← hlen]
    exact Nat.div_mul_cancel (Nat.dvd_of_mod_eq_zero hwhole)
  · obtain ⟨hi, rfl⟩ := List.getElem?_eq_some_iff.mp hx
    have hi' : i < data.size / recordBytes := by rwa [hlen]
    have hsample := hget i (by rwa [List.length_range]) hi
    rw [List.get_eq_getElem, List.getElem_range] at hsample
    exact holdsAt_of_sample hi' hsample

/-- Data that was read leaves the rest to be read as it would be alone. -/
theorem mapM_outcomes_append {data more : ByteArray} {xs : List Sample}
    (h : (outcomes 0 data).mapM id = .ok xs) (zs : List Sample) :
    (outcomes 0 (data ++ more)).mapM id = .ok zs ↔
      ∃ ys, (outcomes 0 more).mapM id = .ok ys ∧ zs = xs ++ ys := by
  have hwhole := (mapM_outcomes_eq_ok.mp h).1
  have hnumber : ∀ ys, (outcomes (0 + data.size / recordBytes) more).mapM id = .ok ys ↔
      (outcomes 0 more).mapM id = .ok ys := by
    intro ys
    rw [mapM_outcomes_eq_ok, mapM_outcomes_eq_ok]
  rw [outcomes_append hwhole, List.mapM_append, h]
  show (((outcomes _ more).mapM id) >>= fun ys => pure (xs ++ ys)) = .ok zs ↔ _
  rw [bind_eq_ok]
  refine exists_congr fun ys => and_congr (hnumber ys) ?_
  show Except.ok (xs ++ ys) = .ok zs ↔ _
  rw [Except.ok.injEq, eq_comm]

/-- **Records without a limit.** They are read if and only if there are only whole ones and every label
is below ten. Then there is one sample for each record, in order, with the record's own label and
intensities, and what follows is read as it would be alone. -/
theorem load_iff_labelled {limit : Int} (hlimit : limit < 0) (data : ByteArray) :
    ((∃ xs, load data limit = .ok xs) ↔ Labelled data) ∧
    ∀ xs, load data limit = .ok xs → Decodes data xs ∧
      ∀ (more : ByteArray) (zs : List Sample), load (data ++ more) limit = .ok zs ↔
        ∃ ys, load more limit = .ok ys ∧ zs = xs ++ ys := by
  simp only [load_unlimited hlimit]
  refine ⟨exists_mapM_outcomes_iff, fun xs hxs => ⟨decodes_of_mapM_outcomes hxs, ?_⟩⟩
  intro more zs
  exact mapM_outcomes_append hxs zs

/-- Two records, and behind them one whose label is out of range. -/
theorem plainRecords_decode : ((-1 : Int) < 0) ∧
    load (plainRecord 7 1) (-1) = .ok [plainSample 7 1] ∧
    load (plainRecord 7 1 ++ plainRecord 9 255) (-1) = .ok [plainSample 7 1, plainSample 9 255] ∧
    Decodes (plainRecord 7 1 ++ plainRecord 9 255) [plainSample 7 1, plainSample 9 255] ∧
    ∀ xs, load (plainRecord 7 1 ++ plainRecord 10 0) (-1) ≠ .ok xs := by
  have hlimit : (-1 : Int) < 0 := by decide
  have hplain : ∀ {label : UInt8} (pixel : UInt8), label < classes →
      load (plainRecord label pixel) (-1) = .ok [plainSample label pixel] := by
    intro label pixel h
    rw [load_unlimited hlimit, outcomes_plainRecord h]
    rfl
  have hfirst := @hplain 7 1 (by decide)
  obtain ⟨-, happend⟩ := (load_iff_labelled hlimit (plainRecord 7 1)).2 _ hfirst
  have hboth := (happend (plainRecord 9 255) [plainSample 7 1, plainSample 9 255]).mpr
    ⟨_, hplain 255 (by decide), rfl⟩
  refine ⟨hlimit, hfirst, hboth, ((load_iff_labelled hlimit _).2 _ hboth).1, fun xs hxs => ?_⟩
  obtain ⟨ys, hys, -⟩ := (happend _ xs).mp hxs
  have hbyte : (plainRecord 10 0).data[0 * 3073]? = some 10 := by
    rw [Nat.zero_mul, ← Array.getElem?_toList]
    exact List.getElem?_cons_zero
  have hlabel := ((load_iff_labelled hlimit (plainRecord 10 0)).1.mp ⟨ys, hys⟩).label 0 10 hbyte
  exact absurd hlabel (by decide)

end Cifar10
end NetImage
