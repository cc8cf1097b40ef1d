import NetImage.Proofs.Build.Compile
import NetImage.Proofs.Image

/-!
# NetImage.Proofs.Build.Capacity

How large the memory must be. The stages before the image do not look at the size of the memory, so a
model that compiles for one size compiles for every size from the end of its last section on, and for
a smaller one the error says what it takes.

* `Compile.plan_resized`, `Bundle.ofPlan_resized`: the stages before the image.
* `Image.assemble_resized`: the image.
* `capacity_of_compile`: two whole runs.
-/

namespace NetImage

/-- The plan for a memory of `size` bytes. -/
def Plan.resized (p : Plan) (size : Int64) : Plan :=
  { p with config := { p.config with nvmSize := size } }

theorem Compile.plan_resized (decls : List Decl) (samples : List Sample) (config : Config)
    (read : FileReader) (size : Int64) :
    (plan decls samples { config with nvmSize := size } read).result =
      (plan decls samples config read).result.map fun r => (r.1.resized size, r.2) := by
  -- the parameters are placed by other settings than the size
  have hplace : ∀ steps params,
      Parameters.place ⟨{ config with nvmSize := size }, samples, read, Step.weights steps⟩ params =
        Parameters.place ⟨config, samples, read, Step.weights steps⟩ params := fun _ _ => rfl
  simp only [plan, Traced.result_bind, Traced.result_ofExcept, Traced.result_pure, hplace,
    map_of_bind]
  rfl

theorem Bundle.ofPlan_resized {p : Plan} {b : Bundle} (h : ofPlan p = .ok b) (size : Int64) :
    ∃ b', ofPlan (p.resized size) = .ok b' ∧ b'.stream = b.stream ∧ b'.listing = b.listing := by
  unfold ofPlan at h ⊢
  obtain ⟨model, hmodel, h⟩ := bind_eq_ok.mp h
  cases h
  have hencode : (p.resized size).encode = .ok model := hmodel
  rw [hencode]
  exact ⟨_, rfl, rfl, rfl⟩

namespace Image

/-- The same sections at the same places in an image of `size` bytes. -/
structure Resized (im : Image) (size : Int64) (im' : Image) : Prop where
  offsets : im'.offsets = im.offsets
  used : im'.used = im.used
  length : (im'.bytes.size : Int) = size.toInt
  bytes : ∀ i < min im.bytes.size im'.bytes.size,
    im'.bytes.data.toList[i]? = im.bytes.data.toList[i]?
  zeros : ∀ i : Nat, im'.used ≤ i → i < im'.bytes.size → im'.bytes.data.toList[i]? = some 0

theorem resized_layout {start n : Nat} {size : Int64} {sections : List ByteArray}
    (h : start + total sections ≤ n) (h' : (start : Int) + total sections ≤ size.toInt) :
    (layout start n sections).Resized size (layout start size.toInt.toNat sections) := by
  have hn := size_layout h
  have hsize := size_layout (show start + total sections ≤ size.toInt.toNat by omega)
  refine ⟨rfl, rfl, by omega, ?_, ?_⟩
  · intro i hi
    rw [hn, hsize, Nat.lt_min] at hi
    rw [getElem?_layout (by omega) hi.1, getElem?_layout (by omega) hi.2]
  · intro i hused hi
    have hused : ((start + total sections : Nat) : Int) ≤ i := hused
    exact getElem?_layout_behind (by omega) (by omega) (by omega)

variable {reserved size : Int64} {sections : List ByteArray} {im : Image}

/-- An image that could be assembled is the layout of its sections. -/
theorem eq_layout (hne : sections ≠ []) (h : assemble reserved size sections = .ok im) :
    0 ≤ reserved.toInt ∧ reserved.toInt + total sections ≤ size.toInt ∧
      im = layout reserved.toInt.toNat size.toInt.toNat sections := by
  obtain ⟨h₀, hfits, -⟩ := assemble_eq_ok hne h
  have htop := size.toInt_lt
  rw [assemble_eq hne h₀ (by omega), if_pos hfits] at h
  exact ⟨h₀, hfits, (Except.ok.inj h).symm⟩

theorem size_of_assemble (hne : sections ≠ []) (h : assemble reserved size sections = .ok im) :
    (im.bytes.size : Int) = size.toInt := by
  obtain ⟨h₀, hfits, rfl⟩ := eq_layout hne h
  rw [size_layout (by omega)]
  omega

theorem assemble_resized (hne : sections ≠ []) (h : assemble reserved size sections = .ok im)
    (size' : Int64) :
    (im.used ≤ size'.toInt → ∃ im', assemble reserved size' sections = .ok im' ∧
      im.Resized size' im') ∧
    (size'.toInt < im.used → ∃ need : Int64, need.toInt = im.used ∧
      assemble reserved size' sections = .error (.capacity need size')) := by
  obtain ⟨h₀, hfits, rfl⟩ := eq_layout hne h
  have htop := size.toInt_lt
  have hused : (layout reserved.toInt.toNat size.toInt.toNat sections).used =
      reserved.toInt + total sections := by
    show (reserved.toInt.toNat : Int) + total sections = _
    rw [Int.toNat_of_nonneg h₀]
  rw [hused, assemble_eq hne h₀ (by omega)]
  refine ⟨fun hle => ?_, fun hlt => ?_⟩
  · rw [if_pos hle]
    exact ⟨_, rfl, resized_layout (by omega) (by omega)⟩
  · rw [if_neg (by omega)]
    exact ⟨_, toInt_need_of_lt h₀ (by omega), rfl⟩

end Image

theorem Bundle.streams_ne_nil (b : Bundle) : Stream.all.map b.stream ≠ [] := by
  simp [Stream.all]

/-- The same model in a memory of `size` bytes. -/
structure Compiled.Resized (out : Compiled) (size : Int64) (out' : Compiled) : Prop where
  plan : out'.plan = out.plan.resized size
  streams : out'.bundle.stream = out.bundle.stream
  listing : out'.bundle.listing = out.bundle.listing
  overflows : out'.overflows = out.overflows
  image : out.image.Resized size out'.image

/-- **Capacity.** A model that compiles does so in every memory that has room up to the end of its last
section, with the same plan, streams and offsets and the same bytes. In a smaller memory it fails, and
the error has this end and the size of the memory. -/
theorem capacity_of_compile {text : Bytes} {samples : List Sample} {config : Config}
    {read : FileReader} {out : Compiled}
    (h : (compile text samples config read).result = .ok out) (size : Int64) :
    (out.image.bytes.size : Int) = config.nvmSize.toInt ∧
    (out.image.used ≤ size.toInt → ∃ out',
      (compile text samples { config with nvmSize := size } read).result = .ok out' ∧
        out.Resized size out') ∧
    (size.toInt < out.image.used → ∃ need : Int64, need.toInt = out.image.used ∧
      (compile text samples { config with nvmSize := size } read).result =
        .error (.fault (.image (.capacity need size)))) := by
  obtain ⟨decls, hparse, ⟨st⟩⟩ := finished_of_compile h
  have hne := out.bundle.streams_ne_nil
  obtain ⟨hroom, hfull⟩ := Image.assemble_resized hne st.himage size
  -- the second run up to the image
  obtain ⟨b', hbundle, hstream, hlisting⟩ := Bundle.ofPlan_resized st.hbundle size
  have hrun : (Compile.plan decls samples { config with nvmSize := size } read).result =
      .ok (out.plan.resized size, out.overflows) := by
    rw [Compile.plan_resized, st.hrun]
    rfl
  rw [compile_of_bundle hparse hrun hbundle, hstream]
  refine ⟨Image.size_of_assemble hne st.himage, fun hle => ?_, fun hlt => ?_⟩
  · obtain ⟨im', him, hresized⟩ := hroom hle
    rw [him]
    exact ⟨_, rfl, rfl, hstream, hlisting, rfl, hresized⟩
  · obtain ⟨need, hneed, herr⟩ := hfull hlt
    rw [herr]
    exact ⟨need, hneed, rfl⟩

/-- A model with one node. -/
def relu : Bytes := ascii
  "Input ToTensor=x Channels=1 Height=1 Width=2
Relu Name=r FromTensor=x ToTensor=y
"

def reluConfig : Config :=
  { scale := 8, numSlots := 2, intermediateValuesSize := 16, nvmSize := 2000, paramThreshold := 8 }

theorem relu_capacity : ∃ out,
    (compile relu [] reluConfig fun _ => .error []).result = .ok out ∧ out.image.used = 434 ∧
    (∃ out', (compile relu [] { reluConfig with nvmSize := 434 } fun _ => .error []).result =
      .ok out' ∧ out.Resized 434 out') ∧
    ∃ need : Int64, need.toInt = 434 ∧
      (compile relu [] { reluConfig with nvmSize := 433 } fun _ => .error []).result =
        .error (.fault (.image (.capacity need 433))) := by
  have hmap : (compile relu [] reluConfig fun _ => .error []).result.map (·.image.used) =
      .ok 434 := by
    decide +kernel
  obtain ⟨out, hout, hused⟩ := map_eq_ok.mp hmap
  obtain ⟨-, hfits, -⟩ := capacity_of_compile hout 434
  obtain ⟨-, -, hfull⟩ := capacity_of_compile hout 433
  rw [hused] at hfull
  exact ⟨out, hout, hused, hfits (by rw [hused]; decide), hfull (by decide)⟩

end NetImage
