import Mathlib
import NetImage.Proofs.Build.Encoding
import NetImage.Proofs.Variant.Numbering

/-!
# NetImage.Proofs.Variant.Parameters

The parameters of a variant of a graph. The values of a constant are the same whether they are given
as number texts or as the words of a file, so the same bytes are stored in the same places; only the
names in the records differ.

* `Parameters.agree_reals`, `Parameters.agree_integers`: the values of a constant.
* `Parameters.agree_encode`: its stored form.
* `Parameters.agree_place`: the records and the regions.
-/

namespace NetImage
namespace Parameters

/-- The same surroundings, but for the names of the weights. -/
structure Context.Like (N : Bytes → Bytes → Prop) (ctx ctx' : Context) : Prop where
  config : ctx.config = ctx'.config
  samples : ctx.samples = ctx'.samples
  read : ctx.read = ctx'.read
  weights : ∀ {t t' : Bytes}, N t t' → ctx.weights.contains t = ctx'.weights.contains t'

variable {N : Bytes → Bytes → Prop} {ctx ctx' : Context} {c c' : ConstDecl}

/-! ## Values -/

theorem agree_load (h : ctx.Like N ctx') (path : Bytes) (width : Nat) :
    Agree Eq (load ctx c path width) (load ctx' c' path width) := by
  unfold load
  rw [h.read]
  cases ctx'.read path with
  | error reason => exact .error _ _
  | ok bytes => exact .ite Iff.rfl (.ok rfl) (.error _ _)

theorem load_eq_of_read {path : Bytes} {bytes : ByteArray} {width : Nat}
    (hread : ctx.read path = .ok bytes) (hsize : width ∣ bytes.size) :
    load ctx c path width = .ok bytes.data.toList := by
  simp only [load, hread, Nat.mod_eq_zero_of_dvd hsize, if_true]

/-- A file with one field of some width for each value has a multiple of that width. -/
theorem dvd_size_of_fields {α : Type} {bytes : ByteArray} {width : Nat} {f : α → Bytes}
    {values : List α} (hf : ∀ x, (f x).length = width) (h : bytes.data.toList = values.flatMap f) :
    width ∣ bytes.size := by
  have hlen : bytes.size = values.length * width := by
    rw [← length_flatMap_wire hf, ← h]
    exact Array.length_toList.symm
  rw [hlen]
  exact Nat.dvd_mul_left _ _

section Moved

variable {texts : List Bytes} {path : Bytes} {bytes : ByteArray}

theorem reals_of_texts {values : List Float32} (hdata : c.data = .inline texts)
    (hvalues : List.Forall₂ (fun text x => readFloat32 text = .ok x) texts values) :
    reals ctx c = .ok (values.map widen) := by
  simp only [reals, hdata]
  rw [mapM_eq_ok, List.forall₂_map_right_iff]
  refine hvalues.imp ?_
  intro text x hx
  rw [hx]

theorem reals_of_words {values : List Float32} (hdata : c.data = .file path)
    (hread : ctx.read path = .ok bytes)
    (hbytes : bytes.data.toList = values.flatMap fun x => Wire.u32 x.toBits.toNat) :
    reals ctx c = .ok (values.map widen) := by
  have hword : ∀ x : Float32,
      widen (Float32.ofBits (UInt32.ofNat (Wire.toNat (Wire.u32 x.toBits.toNat)))) = widen x := by
    intro x
    rw [Wire.ofNat_toNat_u32, Float32.ofBits_toBits]
  have hvalues : (Wire.words 4 bytes.data.toList).map
      (fun w => widen (Float32.ofBits (UInt32.ofNat w))) = values.map widen := by
    rw [Wire.words_eq, hbytes,
      Wire.map_wordsOf_flatMap (by decide) (fun x => Wire.length_u32 _) hword]
  simp only [reals, hdata]
  rw [load_eq_of_read hread (dvd_size_of_fields (fun x => Wire.length_u32 _) hbytes)]
  exact congrArg Except.ok hvalues

theorem integers_of_texts {values : List Int64} (hdata : c.data = .inline texts)
    (hvalues : List.Forall₂ (fun text n => readInt64 text = .ok n) texts values) :
    integers ctx c = .ok values := by
  simp only [integers, hdata]
  rw [mapM_eq_ok]
  refine hvalues.imp ?_
  intro text n hn
  rw [hn]

theorem integers_of_words {values : List Int64} (hdata : c.data = .file path)
    (hread : ctx.read path = .ok bytes)
    (hbytes : bytes.data.toList = values.flatMap fun n => Wire.i64 n.toInt) :
    integers ctx c = .ok values := by
  simp only [integers, hdata]
  rw [load_eq_of_read hread (dvd_size_of_fields (fun n => Wire.length_i64 _) hbytes), hbytes]
  exact congrArg Except.ok ((congrArg _ (Wire.words_eq 8 _)).trans (map_wordsOf_integers values))

end Moved

/-- Number texts are read alike wherever they stand: only the fault says where. -/
theorem agree_texts {α : Type} {f g : Bytes → Except Fault α} (texts : List Bytes)
    (h : ∀ text, Agree Eq (f text) (g text)) : Agree Eq (texts.mapM f) (texts.mapM g) := by
  rw [← List.forall₂_eq_eq_eq]
  refine agree_mapM (R := Eq) (List.forall₂_same.mpr fun _ _ => rfl) ?_
  rintro text _ rfl
  exact h text

theorem agree_reals (h : ctx.Like N ctx') (hc : c.Like N ctx.read c') (htype : c.type = .float) :
    Agree Eq (reals ctx c) (reals ctx' c') := by
  obtain ⟨line, tensor, type, dims, data⟩ := c
  obtain ⟨line', tensor', type', dims', data'⟩ := c'
  obtain ⟨-, -, -, hvalues⟩ := hc
  cases htype
  cases hvalues with
  | same _ data =>
    cases data with
    | file path =>
      refine (agree_load h path 4).map ?_
      rintro bytes _ rfl
      rfl
    | inline texts =>
      refine agree_texts texts ?_
      intro text
      cases readFloat32 text with
      | ok x => exact .ok rfl
      | error e => exact .error _ _
  | reals hvalues hread hbytes =>
    rw [h.read] at hread
    rw [reals_of_texts rfl hvalues, reals_of_words rfl hread hbytes]
    exact .ok rfl

theorem agree_integers (h : ctx.Like N ctx') (hc : c.Like N ctx.read c') (htype : c.type = .int64) :
    Agree Eq (integers ctx c) (integers ctx' c') := by
  obtain ⟨line, tensor, type, dims, data⟩ := c
  obtain ⟨line', tensor', type', dims', data'⟩ := c'
  obtain ⟨-, -, -, hvalues⟩ := hc
  cases htype
  cases hvalues with
  | same _ data =>
    cases data with
    | file path =>
      refine (agree_load h path 8).map ?_
      rintro bytes _ rfl
      rfl
    | inline texts =>
      refine agree_texts texts ?_
      intro text
      cases readInt64 text with
      | ok n => exact .ok rfl
      | error e => exact .error _ _
  | integers hvalues hread hbytes =>
    rw [h.read] at hread
    rw [integers_of_texts rfl hvalues, integers_of_words rfl hread hbytes]
    exact .ok rfl

/-! ## Stored forms -/

theorem agree_reorder (hdims : c.dims = c'.dims) (values : List Float) :
    Agree Eq (reorder c values).result (reorder c' values).result := by
  unfold reorder
  rw [hdims]
  split
  · rename_i n k h w _
    simp only [Traced.result_bind, Traced.result_tell]
    refine Agree.bind (Agree.refl (fun _ => rfl) _) ?_
    intro _ _ _
    cases channelsLast 0.0 values (extent n) (extent k) (extent h) (extent w) with
    | some values => exact .ok rfl
    | none => exact .error _ _
  · exact .error _ _

theorem agree_encode (h : ctx.Like N ctx') (hc : c.Like N ctx.read c') :
    Agree Eq (encode ctx c).result (encode ctx' c').result := by
  unfold encode
  rw [← hc.type, ← hc.dims, ← h.config, ← h.weights hc.tensor]
  split
  · rename_i htype
    simp only [Traced.result_bind, Traced.result_ofExcept]
    refine (agree_reals h hc htype).bind ?_
    rintro values _ rfl
    split
    · exact .error _ _
    · split
      · simp only [Traced.result_bind, Traced.result_tell, Traced.result_pure]
        refine (agree_reorder hc.dims values).bind ?_
        rintro values _ rfl
        exact .ok rfl
      · exact .ok rfl
  · rename_i htype
    simp only [Traced.result_bind, Traced.result_ofExcept]
    refine (agree_integers h hc htype).bind ?_
    rintro values _ rfl
    split
    · exact .error _ _
    · exact .ok rfl
  · exact .error _ _

theorem agree_checkConst (hc : c.Like N ctx.read c') : Agree Eq (checkConst c) (checkConst c') := by
  unfold checkConst
  rw [← hc.type, ← hc.dims]
  exact .ite Iff.rfl (.error _ _) (.ite Iff.rfl (.error _ _) (.ok rfl))

theorem agree_checkSamples {i i' : InputDecl} (hi : i.Like N i') (samples : List Sample) :
    Agree Eq (checkSamples i samples) (checkSamples i' samples) := by
  unfold checkSamples
  rw [hi.channels, hi.height, hi.width]
  refine agree_forM (R := Eq) (List.forall₂_same.mpr fun _ _ => rfl) ?_
  rintro s _ rfl
  exact .ite Iff.rfl (.ok rfl) (.error _ _)

end Parameters

/-! ## Placement -/

/-- A record of a variant: the same but for its name. -/
structure Param.Like (N : Bytes → Bytes → Prop) (p p' : Param) : Prop where
  name : N p.name p'.name
  rest : p' = { p with name := p'.name }

/-- The parameters of a variant: only the names in the records differ. -/
structure Parameters.Like (N : Bytes → Bytes → Prop) (p p' : Parameters) : Prop where
  records : List.Forall₂ (Param.Like N) p.records p'.records
  region1 : p.region1 = p'.region1
  region2 : p.region2 = p'.region2
  overflows : p.overflows = p'.overflows

namespace Parameters

/-- The parameters of a variant that are placed so far. -/
structure State.Like (N : Bytes → Bytes → Prop) (s s' : State) : Prop where
  regions : s.regions = s'.regions
  done : List.Forall₂ (Param.Like N) s.done s'.done
  count : s.count = s'.count
  overflows : s.overflows = s'.overflows

variable {s s' : State}

theorem agree_addInput (h : ctx.Like N ctx') (hs : s.Like N s') {i i' : InputDecl}
    (hi : i.Like N i') :
    Agree (State.Like N) (s.addInput ctx i).result (s'.addInput ctx' i').result := by
  unfold State.addInput
  rw [← hs.count, ← hs.regions, ← hs.overflows, ← h.config, ← h.samples, ← hi.channels, ← hi.height,
    ← hi.width]
  split
  · simp only [Traced.result_bind, Traced.result_ofExcept, Traced.result_pure]
    refine (agree_checkSamples hi ctx.samples).bind ?_
    intro _ _ _
    exact .ok ⟨rfl, .cons ⟨hi.tensor, rfl⟩ hs.done, rfl, rfl⟩
  · exact .ok ⟨rfl, .cons ⟨hi.tensor, rfl⟩ hs.done, rfl, rfl⟩

theorem agree_addConst (h : ctx.Like N ctx') (hs : s.Like N s') (hc : c.Like N ctx.read c') :
    Agree (State.Like N) (s.addConst ctx c).result (s'.addConst ctx' c').result := by
  unfold State.addConst
  rw [← hs.count, ← hs.regions, ← hs.overflows, ← h.config, ← hc.dims]
  simp only [Traced.result_bind, Traced.result_ofExcept]
  refine (agree_checkConst hc).bind ?_
  intro _ _ _
  refine (agree_encode h hc).bind ?_
  rintro ⟨type, bytes, overflows⟩ _ rfl
  exact .ok ⟨rfl, .cons ⟨hc.tensor, rfl⟩ hs.done, rfl, rfl⟩

theorem agree_place (h : ctx.Like N ctx') {sources sources' : List ParamSource}
    (hsources : List.Forall₂ (ParamSource.Like N ctx.read) sources sources') :
    Agree (Parameters.Like N) (place ctx sources).result (place ctx' sources').result := by
  unfold place
  rw [← h.config]
  simp only [Traced.result_bind, Traced.result_fold, Traced.result_tell, Traced.result_pure]
  have hstep : ∀ s s' p p', State.Like N s s' → ParamSource.Like N ctx.read p p' →
      Agree (State.Like N) (s.add ctx p).result (s'.add ctx' p').result := by
    intro s s' p p' hs hp
    cases hp with
    | fed hi => exact agree_addInput h hs hi
    | stored hc => exact agree_addConst h hs hc
  -- the records so far differ in names only, and the regions not at all
  refine (agree_foldlM hsources hstep ⟨rfl, .nil, rfl, rfl⟩).bind ?_
  intro s s' hs
  exact .ok ⟨List.rel_reverse hs.done, by rw [hs.regions], by rw [hs.regions], hs.overflows⟩

end Parameters
end NetImage
