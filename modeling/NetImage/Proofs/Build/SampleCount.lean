import NetImage.Proofs.Build.TestSet
import NetImage.Proofs.Config
import NetImage.Proofs.Sample.Outcomes
import NetImage.Proofs.Source.Constants

/-!
# NetImage.Proofs.Build.SampleCount

The number of samples in an image and in its header. The header says how many samples were asked for,
and the image has as many as were found.

* `TestSet.ofSamples_eq_ok`: the sizes of the stored samples and labels.
* `sampleCount_of_compile`: what is asked for and what is found.
-/

namespace NetImage

theorem TestSet.ofSamples_eq_ok {scale : Int64} {samples : List Sample} {tests : TestSet}
    (h : (ofSamples scale samples).result = .ok tests) :
    tests.labels.length = samples.length ∧
      tests.bytes.size = (samples.map fun x => 2 * x.data.length).sum := by
  have hs := holds_of_ofSamples h
  refine ⟨by rw [hs.labels, List.length_map], ?_⟩
  have hlen := congrArg List.length hs.bytes
  rw [Array.length_toList, List.length_flatMap] at hlen
  simp only [Sample.length_stored] at hlen
  exact hlen

theorem Bundle.size_labels {p : Plan} {b : Bundle} (h : ofPlan p = .ok b) :
    (b.stream .labels).size = p.labels.length := by
  have hlen := congrArg List.length (labels_of_ofPlan h)
  rw [Array.length_toList, List.length_flatMap] at hlen
  exact hlen.trans (by simp)

namespace Compile.Finished

variable {decls : List Decl} {samples : List Sample} {config : Config} {read : FileReader}
  {out : Compiled} (st : Finished decls samples config read out)
include st

theorem size_labels : (out.bundle.stream .labels).size = samples.length := by
  rw [Bundle.size_labels st.hbundle, st.hplan, (TestSet.ofSamples_eq_ok st.htests).1]

theorem size_samples :
    (out.bundle.stream .samples).size = (samples.map fun x => 2 * x.data.length).sum := by
  rw [Bundle.samples_of_ofPlan st.hbundle, st.hplan, (TestSet.ofSamples_eq_ok st.htests).2]

theorem definesMacro_samples {n : Nat} (hn : config.samples.toInt = n) :
    DefinesMacro out.bundle.header.data.toList (ascii "N_SAMPLES") n := by
  have hconst : ("N_SAMPLES", (n : Int)) ∈ DataFiles.constants out.plan.config := by
    rw [congrArg Plan.config st.hplan, ← hn]
    simp [DataFiles.constants]
  exact Bundle.definesMacro_of_ofPlan st.hbundle hconst

end Compile.Finished

/-- **The number of samples.** The header gives the number that was asked for. The image has as many
samples and labels as the data holds up to this number, so both are the same if and only if the data
holds enough. -/
theorem sampleCount_of_compile {text : Bytes} {data : ByteArray} {samples : List Sample}
    {config : Config} {read : FileReader} {out : Compiled} (hconfig : config.check = .ok ())
    (hload : loadSamples config.loader data config.samples.toInt = .ok samples)
    (h : (compile text samples config read).result = .ok out) :
    ∃ n : Nat, (n : Int) = config.samples.toInt ∧
      DefinesMacro out.bundle.header.data.toList (ascii "N_SAMPLES") n ∧
      (out.bundle.stream .labels).size = min n (config.loader.held data) ∧
      (out.bundle.stream .samples).size =
        (out.bundle.stream .labels).size * (2 * config.loader.values) ∧
      (n = (out.bundle.stream .labels).size ↔ n ≤ config.loader.held data) := by
  obtain ⟨decls, -, ⟨st⟩⟩ := finished_of_compile h
  obtain ⟨n, hn⟩ := Int.eq_ofNat_of_zero_le (Config.check_eq_ok.mp hconfig).samples
  rw [hn] at hload
  obtain ⟨hcount, hvalues⟩ := loadSamples_eq_ok hload
  have hsum : (samples.map fun x => 2 * x.data.length).sum =
      samples.length * (2 * config.loader.values) := by
    rw [List.map_congr_left fun x hx => by rw [hvalues x hx], List.map_const', List.sum_replicate,
      smul_eq_mul]
  refine ⟨n, hn.symm, st.definesMacro_samples hn, st.size_labels.trans hcount, ?_, ?_⟩
  · rw [st.size_samples, hsum, st.size_labels]
  · rw [st.size_labels, hcount]
    omega

/-! ## One sample, asked for once and twice -/

theorem load_darkData {limit : Nat} (h : 0 < limit) :
    loadSamples .cntk darkData limit = .ok [darkSample] := by
  rw [loadSamples_eq (by simp), Loader.outcomes_darkData, upToLimit_cons (withinLimit_iff.mpr h),
    upToLimit_nil]
  rfl

/-- A model for such images. -/
def darkNet : Bytes := ascii
  "Input ToTensor=x Channels=1 Height=28 Width=28
Relu Name=r FromTensor=x ToTensor=y
"

/-- A configuration that asks for `n` samples. -/
def asking (n : Int64) : Config :=
  { scale := 8, numSlots := 1, samples := n, nvmSize := 10000, paramThreshold := 8 }

theorem asking_one_sampleCount : ∃ out, (asking 1).check = .ok () ∧
    loadSamples (asking 1).loader darkData (asking 1).samples.toInt = .ok [darkSample] ∧
    (compile darkNet [darkSample] (asking 1) fun _ => .error []).result = .ok out ∧
    DefinesMacro out.bundle.header.data.toList (ascii "N_SAMPLES") 1 ∧
    (out.bundle.stream .labels).size = 1 ∧ (out.bundle.stream .samples).size = 1568 := by
  have hcheck : (asking 1).check = .ok () := by decide
  have hload : loadSamples (asking 1).loader darkData (asking 1).samples.toInt =
      .ok [darkSample] := load_darkData Nat.one_pos
  have hok : (compile darkNet [darkSample] (asking 1) fun _ => .error []).result.isOk = true := by
    decide +kernel
  obtain ⟨out, hout⟩ := exists_of_isOk hok
  obtain ⟨n, hn, hheader, hlabels, hsamples, -⟩ := sampleCount_of_compile hcheck hload hout
  obtain rfl : n = 1 := Int.ofNat_inj.mp hn
  have hheld : (asking 1).loader.held darkData = 1 := by decide +kernel
  rw [hheld] at hlabels
  rw [hlabels] at hsamples
  exact ⟨out, hcheck, hload, hout, hheader, hlabels, hsamples⟩

/-- The header says two, and there is one. -/
theorem asking_two_ne_sampleCount : ∃ out, (asking 2).check = .ok () ∧
    loadSamples (asking 2).loader darkData (asking 2).samples.toInt = .ok [darkSample] ∧
    (compile darkNet [darkSample] (asking 2) fun _ => .error []).result = .ok out ∧
    DefinesMacro out.bundle.header.data.toList (ascii "N_SAMPLES") 2 ∧
    (out.bundle.stream .labels).size = 1 := by
  have hok : (compile darkNet [darkSample] (asking 2) fun _ => .error []).result.isOk = true := by
    decide +kernel
  obtain ⟨out, hout⟩ := exists_of_isOk hok
  obtain ⟨decls, -, ⟨st⟩⟩ := finished_of_compile hout
  exact ⟨out, by decide, load_darkData Nat.two_pos, hout, st.definesMacro_samples rfl,
    st.size_labels⟩

end NetImage
