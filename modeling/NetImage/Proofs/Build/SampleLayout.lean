import NetImage.Proofs.Build.FieldWidths
import NetImage.Proofs.Build.SampleShapes
import NetImage.Proofs.Build.TestSet
import NetImage.Proofs.Graph.Values
import NetImage.Proofs.Source.Companion

/-!
# NetImage.Proofs.Build.SampleLayout

Where the samples of a model are. If they feed the first parameter, they have its shape, so all of
them take the number of bytes that its record gives, and cutting the stream in as many parts as there
are labels cuts it between samples.

* `Bundle.HoldsSamples`: the samples in everything that is written.
* `Bundle.holdsSamples_of_ofPlan`: samples of one size are held.
* `sampleLayout_of_compile`: the samples of a compiled model.
-/

namespace NetImage

/-- Samples with `c` channels of `h` by `w` values in what is written. Each takes two bytes for a
value, channel by channel and row by row, and one byte for its label; the listing is read as the
labels; and the arrays of the source have the first sample. -/
structure Bundle.HoldsSamples (b : Bundle) (scale : Int64) (c h w : Nat) (samples : List Sample) :
    Prop where
  size : (b.stream .samples).size = samples.length * (2 * (c * h * w))
  sample : ∀ (j : Nat) (s : Sample), samples[j]? = some s →
    Bytes.slice (j * (2 * (c * h * w))) ((j + 1) * (2 * (c * h * w)))
      (b.stream .samples).data.toList = s.stored scale
  value : ∀ (j : Nat) (s : Sample), samples[j]? = some s →
    ∀ k y x : Nat, k < c → y < h → x < w → ∃ v, s.data[(k * h + y) * w + x]? = some v ∧
      (Wire.numberAt (b.stream .samples).data.toList
        (j * (2 * (c * h * w)) + 2 * ((k * h + y) * w + x)) 2 : Int).bmod (2 ^ 16) =
          quantize (descale (widen v) scale)
  labels : (b.stream .labels).size = samples.length
  label : ∀ (j : Nat) (s : Sample), samples[j]? = some s →
    ∃ byte, (b.stream .labels).data.toList[j]? = some byte ∧ (byte.toNat : Int) = s.label.toInt
  listing : (Bytes.split 0x20 b.listing).mapM readInt64 = .ok (samples.map Sample.label)
  first : ∀ s, samples.head? = some s →
    DefinesArray b.source.data.toList (ascii "samples_data") (2 * (c * h * w)) (s.stored scale)
  firstLabel : ∀ s, samples.head? = some s → ∃ byte, (byte.toNat : Int) = s.label.toInt ∧
    DefinesArray b.source.data.toList (ascii "labels_data") 1 [byte]

namespace Sample

theorem u8_label {s : Sample} (h : 0 ≤ s.label.toInt ∧ s.label.toInt ≤ 255) :
    Wire.u8 s.label.toInt = [s.labelByte] := by
  have hmod : s.label.toInt % (Nat.pow 256 1 : Nat) = s.label.toInt :=
    Int.emod_eq_of_lt h.1 (by norm_num; omega)
  rw [Wire.u8, Wire.field, hmod]
  rfl

theorem toNat_labelByte {s : Sample} (h : 0 ≤ s.label.toInt ∧ s.label.toInt ≤ 255) :
    (s.labelByte.toNat : Int) = s.label.toInt := by
  rw [labelByte, UInt8.toNat_ofNat']
  omega

end Sample

namespace Bundle

variable {p : Plan} {b : Bundle} {scale : Int64} {samples : List Sample}

/-- The source is given the share of one label. If the stream is as many parts of one size as there are
labels, that is the first part. -/
theorem carried_of_parts {st : Stream} (hst : st = .samples ∨ st = .labels) {n : Nat} {part : Bytes}
    {parts : List Bytes} (hstream : (b.stream st).data.toList = (part :: parts).flatten)
    (hcount : p.labels.length = parts.length + 1) (hsize : ∀ x ∈ part :: parts, x.length = n) :
    b.carried p st = part := by
  have hne : ¬p.labels.isEmpty = true := by
    rw [List.isEmpty_iff_length_eq_zero]
    omega
  have hshare : (part :: parts).flatten.length / p.labels.length = part.length := by
    rw [Bytes.length_flatten hsize, List.length_cons, hcount,
      Nat.mul_div_cancel n (Nat.succ_pos _), hsize part List.mem_cons_self]
  rcases hst with rfl | rfl
  all_goals
    rw [carried, if_neg hne, hstream, hshare, List.flatten_cons, List.take_left]

theorem labels_of_holds (h : ofPlan p = .ok b)
    (hsamples : TestSet.Holds scale samples p.samples p.labels) :
    (b.stream .labels).data.toList = samples.map Sample.labelByte := by
  have hbytes : ∀ s ∈ samples, Wire.u8 s.label.toInt = [s.labelByte] := fun s hs =>
    Sample.u8_label (hsamples.label s hs)
  rw [labels_of_ofPlan h, hsamples.labels, List.flatMap_map, List.flatMap_congr hbytes,
    List.map_eq_flatMap]

theorem listing_of_holds (h : ofPlan p = .ok b) (hne : samples ≠ [])
    (hsamples : TestSet.Holds scale samples p.samples p.labels) :
    (Bytes.split 0x20 b.listing).mapM readInt64 = .ok (samples.map Sample.label) := by
  have hdecimals : p.labels.map decimal =
      (samples.map Sample.label).map fun n => decimal n.toInt := by
    rw [hsamples.labels, List.map_map, List.map_map]
    rfl
  have hsplit : Bytes.split 0x20 b.listing =
      (samples.map Sample.label).map fun n => decimal n.toInt := by
    rw [listing_of_ofPlan h, hdecimals]
    exact FieldKind.split_writeInts (by decide) (by decide) (by simpa using hne)
  rw [hsplit]
  exact FieldKind.mapM_decimal fun n _ => readInt64_decimal n

section Sized

variable {n : Nat} (h : ofPlan p = .ok b)
  (hsamples : TestSet.Holds scale samples p.samples p.labels)
  (hsize : ∀ s ∈ samples, (s.stored scale).length = n)
include h hsamples hsize

/-- The stream is the samples one behind the other, and all have one size. -/
theorem samples_of_holds :
    (b.stream .samples).data.toList = (samples.map (Sample.stored scale)).flatten ∧
      ∀ part ∈ samples.map (Sample.stored scale), part.length = n := by
  refine ⟨?_, ?_⟩
  · rw [samples_of_ofPlan h, hsamples.bytes, List.flatMap_def]
  · intro part hpart
    obtain ⟨s, hs, rfl⟩ := List.mem_map.mp hpart
    exact hsize s hs

theorem slice_samples {j : Nat} {s : Sample} (hs : samples[j]? = some s) :
    Bytes.slice (j * n) ((j + 1) * n) (b.stream .samples).data.toList = s.stored scale := by
  obtain ⟨hstream, hparts⟩ := samples_of_holds h hsamples hsize
  rw [hstream, Nat.mul_comm j, Nat.mul_comm (j + 1)]
  exact Bytes.slice_flatten hparts (by rw [List.getElem?_map, hs, Option.map_some])

theorem numberAt_samples {j q : Nat} {s : Sample} {v : Float32} (hs : samples[j]? = some s)
    (hv : s.data[q]? = some v) :
    (Wire.numberAt (b.stream .samples).data.toList (j * n + 2 * q) 2 : Int).bmod (2 ^ 16) =
      quantize (descale (widen v) scale) := by
  have hlen := hsize s (List.mem_of_getElem? hs)
  rw [Sample.length_stored] at hlen
  have hq : q < s.data.length := (List.getElem?_eq_some_iff.mp hv).1
  have hend : j * n + 2 * q + 2 ≤ (j + 1) * n := by
    rw [Nat.succ_mul j]
    omega
  rw [← Sample.numberAt_stored hv, ← slice_samples h hsamples hsize hs, Wire.numberAt_slice hend]

theorem length_samples : (b.stream .samples).data.toList.length = samples.length * n := by
  obtain ⟨hstream, hparts⟩ := samples_of_holds h hsamples hsize
  rw [hstream, Bytes.length_flatten hparts, List.length_map, Nat.mul_comm]

theorem carried_samples {s : Sample} (hs : samples.head? = some s) :
    b.carried p .samples = s.stored scale := by
  obtain ⟨rest, rfl⟩ := List.head?_eq_some_iff.mp hs
  obtain ⟨hstream, hparts⟩ := samples_of_holds h hsamples hsize
  rw [List.map_cons] at hstream hparts
  exact carried_of_parts (.inl rfl) hstream (by simp [hsamples.labels]) hparts

end Sized

theorem carried_labels {s : Sample} (h : ofPlan p = .ok b)
    (hsamples : TestSet.Holds scale samples p.samples p.labels) (hs : samples.head? = some s) :
    b.carried p .labels = [s.labelByte] := by
  obtain ⟨rest, rfl⟩ := List.head?_eq_some_iff.mp hs
  have hstream := labels_of_holds h hsamples
  rw [List.map_eq_flatMap, List.flatMap_def, List.map_cons] at hstream
  exact carried_of_parts (n := 1) (.inr rfl) hstream (by simp [hsamples.labels]) (by simp)

/-- Samples that have one size are held by what is written for them. -/
theorem holdsSamples_of_ofPlan {c h w : Nat} (hbundle : ofPlan p = .ok b) (hne : samples ≠ [])
    (hsamples : TestSet.Holds scale samples p.samples p.labels)
    (hvalues : ∀ s ∈ samples, s.data.length = c * h * w) :
    b.HoldsSamples scale c h w samples := by
  have hsize : ∀ s ∈ samples, (s.stored scale).length = 2 * (c * h * w) := by
    intro s hs
    rw [Sample.length_stored, hvalues s hs]
  have hlabels := labels_of_holds hbundle hsamples
  refine ⟨?_, ?_, ?_, ?_, ?_, listing_of_holds hbundle hne hsamples, ?_, ?_⟩
  · exact length_samples hbundle hsamples hsize
  · intro j s hs
    exact slice_samples hbundle hsamples hsize hs
  · intro j s hs k y x hk hy hx
    have hlt : (k * h + y) * w + x < c * h * w := block_lt (block_lt hk hy) hx
    rw [← hvalues s (List.mem_of_getElem? hs)] at hlt
    have hv := List.getElem?_eq_getElem hlt
    exact ⟨_, hv, numberAt_samples hbundle hsamples hsize hs hv⟩
  · have hlen := congrArg List.length hlabels
    rwa [List.length_map] at hlen
  · intro j s hs
    refine ⟨s.labelByte, ?_, Sample.toNat_labelByte (hsamples.label s (List.mem_of_getElem? hs))⟩
    rw [hlabels, List.getElem?_map, hs, Option.map_some]
  · intro s hs
    have harray := definesArray_of_ofPlan hbundle .samples
    rw [carried_samples hbundle hsamples hsize hs, hsize s (List.mem_of_mem_head? hs)] at harray
    exact harray
  · intro s hs
    have harray := definesArray_of_ofPlan hbundle .labels
    rw [carried_labels hbundle hsamples hs] at harray
    exact ⟨s.labelByte, Sample.toNat_labelByte (hsamples.label s (List.mem_of_mem_head? hs)), harray⟩

end Bundle

namespace Compile

variable {decls : List Decl} {i : InputDecl}

theorem Indexed.params_of_head (st : Indexed decls)
    (hfirst : (Sources.byKind decls).inputs.head? = some i)
    (hfree : i.tensor ∉ (Sources.byKind decls).consts.map ConstDecl.tensor) :
    ∃ ps, st.numbering.params = .fed i :: ps := by
  have hfed : (Sources.byKind decls).firstFed? = some i := by
    obtain ⟨rest, hinputs⟩ := List.head?_eq_some_iff.mp hfirst
    rw [Sources.firstFed?, hinputs, List.find?_cons_of_pos]
    simpa using hfree
  exact (st.params_of_firstFed? hfed).1 hfirst

variable {samples : List Sample} {config : Config} {read : FileReader} {out : Compiled}
  (st : Finished decls samples config read out) {ps : List ParamSource}
  (hparams : st.numbering.params = .fed i :: ps)
include hparams

theorem Finished.fits_of_params : ∀ s ∈ samples, s.Fits i := by
  have hplace := st.hparams
  rw [hparams] at hplace
  exact Parameters.fits_of_place hplace

/-- The record of the first input gives the number of bytes of a sample. -/
theorem Finished.firstParam_of_params (hi : (ParamSource.fed i).InRange) :
    ∃ p, out.plan.params[0]? = some p ∧ p.input = true ∧ p.name = i.tensor ∧
      p.bytes = 2 * (i.channels.toInt * i.height.toInt * i.width.toInt) := by
  obtain ⟨s, hends⟩ := exists_ends st
  have hrecords := hends.placed.records
  rw [hparams, ← hends.records] at hrecords
  obtain ⟨p, rest, hp, -, hout⟩ := List.forall₂_cons_left_iff.mp hrecords
  refine ⟨p, by rw [hout]; rfl, ?_⟩
  cases hp with
  | input id offset i hplace =>
    refine ⟨rfl, rfl, ?_⟩
    rw [Parameters.bytes_inputParam _ _ _ hi]
    simp only [Parameters.inputParam, List.prod_cons, List.prod_nil]
    ring

end Compile

/-- **The samples of a compiled model.** Let the first input be fed by the samples, and let there be a
sample. If every sample has as many values as its shape says, the record of the first parameter gives
the number of bytes of each, and everything that is written holds the samples at this size. -/
theorem sampleLayout_of_compile {text : Bytes} {decls : List Decl} {i : InputDecl}
    {samples : List Sample} {config : Config} {read : FileReader} {out : Compiled}
    (hparse : parse text = .ok decls) (hfirst : (Sources.byKind decls).inputs.head? = some i)
    (hfree : i.tensor ∉ (Sources.byKind decls).consts.map ConstDecl.tensor) (hne : samples ≠ [])
    (hvalues : ∀ s ∈ samples,
      (s.data.length : Int) = s.channels.toInt * s.height.toInt * s.width.toInt)
    (h : (compile text samples config read).result = .ok out) :
    ∃ (p : Param) (c h w : Nat), out.plan.params[0]? = some p ∧ p.input = true ∧
      p.name = i.tensor ∧ i.channels.toInt = c ∧ i.height.toInt = h ∧ i.width.toInt = w ∧
      p.bytes = (2 * (c * h * w) : Nat) ∧
      out.bundle.HoldsSamples config.scale c h w samples := by
  obtain ⟨decls', hparse', ⟨st⟩⟩ := finished_of_compile h
  cases hparse.symm.trans hparse'
  obtain ⟨ps, hparams⟩ := st.params_of_head hfirst hfree
  have hi : (ParamSource.fed i).InRange :=
    st.inRange_of_mem_params (inRange_of_parse hparse) (hparams ▸ List.mem_cons_self)
  obtain ⟨p, hp, hinput, hname, hbytes⟩ := st.firstParam_of_params hparams hi
  obtain ⟨c, hc⟩ := Int.eq_ofNat_of_zero_le hi.1.bounds.1
  obtain ⟨m, hm⟩ := Int.eq_ofNat_of_zero_le hi.2.1.bounds.1
  obtain ⟨w, hw⟩ := Int.eq_ofNat_of_zero_le hi.2.2.bounds.1
  refine ⟨p, c, m, w, hp, hinput, hname, hc, hm, hw, ?_, ?_⟩
  · rw [hbytes, hc, hm, hw]
    push_cast
    rfl
  · have hcount : ∀ s ∈ samples, s.data.length = c * m * w := by
      intro s hs
      obtain ⟨hsc, hsm, hsw⟩ := st.fits_of_params hparams s hs
      have hlen := hvalues s hs
      rw [hsc, hsm, hsw, hc, hm, hw] at hlen
      exact_mod_cast hlen
    have htests := TestSet.holds_of_ofSamples st.htests
    refine Bundle.holdsSamples_of_ofPlan st.hbundle hne ?_ hcount
    rw [st.hplan]
    exact htests

/-- A sample with the shape of `wideSample`, of another class. -/
def brightSample : Sample := ⟨1, 1, 2, [4, -2], 9⟩

/-- Two samples take four bytes each. The second value of the second sample is a negative one, and the
source has the first sample. -/
theorem brightSample_layout :
    ∃ out decls i p,
      (compile fedFirst [wideSample, brightSample] { scale := 8, nvmSize := 2000 }
        fun _ => .error []).result = .ok out ∧
      parse fedFirst = .ok decls ∧ (Sources.byKind decls).inputs.head? = some i ∧
      i.tensor ∉ (Sources.byKind decls).consts.map ConstDecl.tensor ∧
      out.plan.params[0]? = some p ∧ p.bytes = 4 ∧ (out.bundle.stream .samples).size = 8 ∧
      (Wire.numberAt (out.bundle.stream .samples).data.toList 6 2 : Int).bmod (2 ^ 16) = -8192 ∧
      (out.bundle.stream .labels).size = 2 ∧
      (Bytes.split 0x20 out.bundle.listing).mapM readInt64 = .ok [7, 9] ∧
      DefinesArray out.bundle.source.data.toList (ascii "samples_data") 4 [0, 0, 0, 0] := by
  have hok : (compile fedFirst [wideSample, brightSample] { scale := 8, nvmSize := 2000 }
      fun _ => .error []).result.isOk = true := by
    decide +kernel
  have hsources : (parse fedFirst).map (fun decls => ((Sources.byKind decls).inputs.head?,
      (Sources.byKind decls).consts.map ConstDecl.tensor)) =
      .ok (some ⟨1, ascii "x", 1, 1, 2⟩, [ascii "k"]) := by
    decide +kernel
  have hvalues : ∀ s ∈ [wideSample, brightSample],
      (s.data.length : Int) = s.channels.toInt * s.height.toInt * s.width.toInt := by
    simp only [List.forall_mem_cons]
    exact ⟨rfl, rfl, by simp⟩
  have hvalue : quantize (descale (widen (-2)) 8) = -8192 := by decide +kernel
  have hstored : wideSample.stored 8 = [0, 0, 0, 0] := by decide +kernel
  obtain ⟨out, hout⟩ := exists_of_isOk hok
  obtain ⟨decls, hparse, hpair⟩ := map_eq_ok.mp hsources
  obtain ⟨hfirst, hconsts⟩ := Prod.mk.inj hpair
  have hfree : ascii "x" ∉ (Sources.byKind decls).consts.map ConstDecl.tensor := by
    rw [hconsts]
    decide
  obtain ⟨p, c, h, w, hp, -, -, hc, hh, hw, hbytes, hholds⟩ :=
    sampleLayout_of_compile hparse hfirst hfree (List.cons_ne_nil _ _) hvalues hout
  obtain rfl : c = 1 := Int.ofNat_inj.mp hc.symm
  obtain rfl : h = 1 := Int.ofNat_inj.mp hh.symm
  obtain rfl : w = 2 := Int.ofNat_inj.mp hw.symm
  obtain ⟨v, hv, hnumber⟩ :=
    hholds.value 1 brightSample rfl 0 0 1 Nat.one_pos Nat.one_pos Nat.one_lt_two
  obtain rfl : -2 = v := Option.some.inj hv
  refine ⟨out, decls, _, p, hout, hparse, hfirst, hfree, hp, hbytes, hholds.size,
    hnumber.trans hvalue, hholds.labels, hholds.listing, ?_⟩
  rw [← hstored]
  exact hholds.first wideSample rfl

end NetImage
