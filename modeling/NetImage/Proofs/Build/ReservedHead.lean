import NetImage.Proofs.Build.Capacity
import NetImage.Proofs.Config

/-!
# NetImage.Proofs.Build.ReservedHead

The slots of the intermediate values stand before the sections of an image. Their size is a product of
two settings and the size of everything a sum, both in words of 64 bits, and a configuration that
passes its check can make them wrap.

An image of up to `2 ^ 63 - 1` bytes counts as made here, with memory for all of them. On a machine
that cannot give that much there is neither an image nor a report, which `HeadKept` leaves out.

* `headKept_iff_of_compile`: when the slots are reserved in full, or their true size is reported.
* `slotted_not_headKept`: four slots that wrap to none, and two that wrap to a negative size.
-/

namespace NetImage

/-- The size of all slots, as a whole number. -/
def Config.headBytes (c : Config) : Int := c.numSlots.toInt * c.intermediateValuesSize.toInt

/-- The size of what is written behind the slots. -/
def Bundle.totalBytes (b : Bundle) : Nat := Image.total (Stream.all.map b.stream)

/-- The last stage reserves all slots, or says how much they and the sections take. -/
inductive HeadKept (config : Config) (b : Bundle) : Except CompileError Compiled → Prop where
  | reserved {out : Compiled} (hbundle : out.bundle = b)
      (hzeros : List.replicate config.headBytes.toNat 0 <+: out.image.bytes.data.toList)
      (hfirst : out.image.offsets.head? = some config.headBytes) : HeadKept config b (.ok out)
  | reported {need : Int64} (hneed : need.toInt = config.headBytes + b.totalBytes) :
      HeadKept config b (.error (.fault (.image (.capacity need config.nvmSize))))

theorem Config.headBytes_of_check {c : Config} (h : c.check = .ok ()) : 0 ≤ c.headBytes := by
  have hbounds := check_eq_ok.mp h
  exact Int.mul_nonneg hbounds.numSlots.1.le hbounds.intermediateValuesSize

/-- As long as slots and sections fit a word, the image is laid out behind all slots. -/
theorem assemble_slots {config : Config} {b : Bundle} (h₀ : 0 ≤ config.headBytes)
    (hlt : config.headBytes + b.totalBytes < 2 ^ 63) :
    ∃ need : Int64, need.toInt = config.headBytes + b.totalBytes ∧
      Image.assemble (config.numSlots * config.intermediateValuesSize) config.nvmSize
          (Stream.all.map b.stream) =
        if config.headBytes + b.totalBytes ≤ config.nvmSize.toInt then
          .ok (Image.layout config.headBytes.toNat config.nvmSize.toInt.toNat
            (Stream.all.map b.stream))
        else .error (.capacity need config.nvmSize) := by
  have hexact : (config.numSlots * config.intermediateValuesSize).toInt = config.headBytes := by
    rw [Int64.toInt_mul, ← Config.headBytes]
    exact Int.bmod_eq_of_le (by omega) (by omega)
  unfold Bundle.totalBytes at hlt ⊢
  rw [← hexact] at h₀ hlt ⊢
  exact ⟨_, Image.toInt_need_of_lt h₀ hlt, Image.assemble_eq b.streams_ne_nil h₀ hlt _⟩

/-- What is reserved or reported has gone through a word. -/
theorem HeadKept.sum_lt {config : Config} {b : Bundle} {p : Plan} {overflows : Nat}
    (h : HeadKept config b (((Image.assemble (config.numSlots * config.intermediateValuesSize)
      config.nvmSize (Stream.all.map b.stream)).map fun image => ⟨p, b, image, overflows⟩).mapError
        fun e => .fault (.image e))) :
    config.headBytes + b.totalBytes < 2 ^ 63 := by
  cases hassemble : Image.assemble (config.numSlots * config.intermediateValuesSize)
    config.nvmSize (Stream.all.map b.stream) with
  | ok im =>
    rw [hassemble] at h
    cases h with
    | reserved _ _ hfirst =>
      obtain ⟨-, hfits, hoffsets, -⟩ := Image.assemble_eq_ok b.streams_ne_nil hassemble
      rw [hoffsets, Image.head?_offsetsFrom b.streams_ne_nil] at hfirst
      rw [Option.some.inj hfirst] at hfits
      exact Int.lt_of_le_of_lt hfits config.nvmSize.toInt_lt
  | error e =>
    rw [hassemble] at h
    cases e with
    | capacity need available =>
      cases h with
      | reported hneed => exact hneed ▸ need.toInt_lt
    | outside => cases h

/-- **The slots of a model.** When everything is written, the slots are reserved in full or the size
that was missing is reported in full if and only if slots and sections together take less than two to
the 63 bytes. -/
theorem headKept_iff_of_compile {text : Bytes} {decls : List Decl} {samples : List Sample}
    {config : Config} {read : FileReader} {p : Plan} {overflows : Nat} {b : Bundle}
    (hconfig : config.check = .ok ()) (hparse : parse text = .ok decls)
    (hrun : (Compile.plan decls samples config read).result = .ok (p, overflows))
    (hbundle : Bundle.ofPlan p = .ok b) :
    (HeadKept config b (compile text samples config read).result ↔
      config.headBytes + b.totalBytes < 2 ^ 63) ∧
    (config.headBytes + b.totalBytes < 2 ^ 63 →
      ((compile text samples config read).result.isOk = true ↔
        config.headBytes + b.totalBytes ≤ config.nvmSize.toInt)) := by
  have h₀ := Config.headBytes_of_check hconfig
  rw [compile_of_bundle hparse hrun hbundle]
  refine ⟨⟨HeadKept.sum_lt, fun hlt => ?_⟩, fun hlt => ?_⟩
  · obtain ⟨need, hneed, hassemble⟩ := assemble_slots h₀ hlt
    rw [hassemble]
    split
    · refine .reserved rfl (Image.replicate_prefix_layout _ _ _) ?_
      show (Image.offsetsFrom config.headBytes.toNat _).head? = _
      rw [Image.head?_offsetsFrom b.streams_ne_nil, Int.toNat_of_nonneg h₀]
    · exact .reported hneed
  · obtain ⟨need, -, hassemble⟩ := assemble_slots h₀ hlt
    rw [hassemble]
    split <;> rename_i hfits
    · exact iff_of_true rfl hfits
    · exact iff_of_false Bool.false_ne_true hfits

theorem exists_bundle_of_planOf {text : Bytes} {config : Config} {n : Nat}
    (h : (planOf text config).map (fun p => (Bundle.ofPlan p).map Bundle.totalBytes) =
      .ok (.ok n)) :
    ∃ decls p overflows b, parse text = .ok decls ∧
      (Compile.plan decls [] config fun _ => .error []).result = .ok (p, overflows) ∧
      Bundle.ofPlan p = .ok b ∧ b.totalBytes = n := by
  obtain ⟨p, hp, hbundle⟩ := map_eq_ok.mp h
  obtain ⟨b, hb, htotal⟩ := map_eq_ok.mp hbundle
  obtain ⟨decls, overflows, hparse, hrun⟩ := exists_of_planOf hp
  exact ⟨decls, p, overflows, b, hparse, hrun, hb, htotal⟩

/-- A configuration with `n` slots of `size` bytes. -/
def slotted (n size : Int64) : Config :=
  { scale := 8, numSlots := n, intermediateValuesSize := size, nvmSize := 4096,
    paramThreshold := 1024 }

theorem slotted_headKept : ∃ decls p overflows b,
    (slotted 3 3074457345618258467).check = .ok () ∧ parse relu = .ok decls ∧
    (Compile.plan decls [] (slotted 3 3074457345618258467) fun _ => .error []).result =
      .ok (p, overflows) ∧
    Bundle.ofPlan p = .ok b ∧
    (slotted 3 3074457345618258467).headBytes + b.totalBytes = 2 ^ 63 - 1 ∧
    HeadKept (slotted 3 3074457345618258467) b
      (compile relu [] (slotted 3 3074457345618258467) fun _ => .error []).result := by
  have hwritten : (planOf relu (slotted 3 3074457345618258467)).map
      (fun p => (Bundle.ofPlan p).map Bundle.totalBytes) = .ok (.ok 406) := by
    decide +kernel
  obtain ⟨decls, p, overflows, b, hparse, hrun, hbundle, htotal⟩ :=
    exists_bundle_of_planOf hwritten
  have hcheck : (slotted 3 3074457345618258467).check = .ok () := by decide
  have hsum : (slotted 3 3074457345618258467).headBytes + b.totalBytes = 2 ^ 63 - 1 := by
    rw [htotal]
    decide
  obtain ⟨hkept, -⟩ := headKept_iff_of_compile hcheck hparse hrun hbundle
  exact ⟨decls, p, overflows, b, hcheck, hparse, hrun, hbundle, hsum,
    hkept.mpr (by rw [hsum]; decide)⟩

/-- Four slots that wrap to none, so that the model is laid out over them; and two that wrap to a
negative size, so that there is neither an image nor a report. -/
theorem slotted_not_headKept :
    (∃ decls p overflows b, (slotted 4 0x4000000000000000).check = .ok () ∧
      parse relu = .ok decls ∧
      (Compile.plan decls [] (slotted 4 0x4000000000000000) fun _ => .error []).result =
        .ok (p, overflows) ∧
      Bundle.ofPlan p = .ok b ∧
      ¬ HeadKept (slotted 4 0x4000000000000000) b
        (compile relu [] (slotted 4 0x4000000000000000) fun _ => .error []).result ∧
      (compile relu [] (slotted 4 0x4000000000000000) fun _ => .error []).result.map
        (·.image.offsets.head?) = .ok (some 0)) ∧
    (slotted 2 0x4000000000000000).check = .ok () ∧
      (compile relu [] (slotted 2 0x4000000000000000) fun _ => .error []).result.map
        (·.image.used) = .error (.fault (.image .outside)) := by
  have hwritten : (planOf relu (slotted 4 0x4000000000000000)).map
      (fun p => (Bundle.ofPlan p).map Bundle.totalBytes) = .ok (.ok 410) := by
    decide +kernel
  obtain ⟨decls, p, overflows, b, hparse, hrun, hbundle, -⟩ := exists_bundle_of_planOf hwritten
  have hfirst : (compile relu [] (slotted 4 0x4000000000000000) fun _ => .error []).result.map
      (·.image.offsets.head?) = .ok (some 0) := by
    decide +kernel
  refine ⟨⟨decls, p, overflows, b, by decide, hparse, hrun, hbundle, ?_, hfirst⟩, by decide, by
    decide +kernel⟩
  intro hkept
  obtain ⟨out, hout, hhead⟩ := map_eq_ok.mp hfirst
  rw [hout] at hkept
  cases hkept with
  | reserved _ _ hstart =>
    rw [hhead] at hstart
    revert hstart
    decide

end NetImage
