import NetImage.Build.Parameters
import NetImage.Proofs.Build.Layout
import NetImage.Proofs.Graph.ElementCount
import NetImage.Proofs.Wire

/-!
# NetImage.Proofs.Build.Encoding

The bytes that a constant is stored as, said of its declaration: which values it declares, in which
order they are stored, and how many bytes that makes. A constant that is stored has at most four dims,
so the number of its elements is the exact product of the dims.

* `ConstDecl.Declares`: the values of a constant.
* `ConstDecl.StoredAs`: the stored form.
* `Parameters.stores_of_encode`: encoding gives the stored form.
-/

namespace NetImage

/-- The values of a constant: its number texts read one by one, or the words of its file. -/
inductive ConstDecl.Declares {α : Type} (c : ConstDecl) (read : FileReader)
    (reads : Bytes → α → Prop) (width : Nat) (ofWord : Nat → α) : List α → Prop
  | inline {texts : List Bytes} {values : List α} (hdata : c.data = .inline texts)
      (hvalues : List.Forall₂ reads texts values) : Declares c read reads width ofWord values
  | file {path : Bytes} {bytes : ByteArray} (hdata : c.data = .file path)
      (hread : read path = .ok bytes) (hsize : width ∣ bytes.size) :
      Declares c read reads width ofWord ((Wire.wordsOf width bytes.data.toList).map ofWord)

def ConstDecl.DeclaresReals (c : ConstDecl) (read : FileReader) : List Float → Prop :=
  c.Declares read (fun text x => ∃ y, readFloat32 text = .ok y ∧ widen y = x) 4
    fun w => widen (Float32.ofBits (UInt32.ofNat w))

def ConstDecl.DeclaresIntegers (c : ConstDecl) (read : FileReader) : List Int64 → Prop :=
  c.Declares read (fun text n => readInt64 text = .ok n) 8 Int64.ofNat

/-- The order of the values of a real constant: as declared, or with the channel innermost for the
weights of a convolution. -/
def Arranged (weights : Prop) (dims : List Int) (values stored : List Float) : Prop :=
  (weights ∧ ∃ n k h w : Nat, dims = [(n : Int), (k : Int), (h : Int), (w : Int)] ∧
    ChannelsInnermost n k h w values stored) ∨
  (¬weights ∧ stored = values)

/-- The stored form of a constant in a model of the given scale: the bytes that are written, and the
words that are read back from them. -/
inductive ConstDecl.StoredAs (c : ConstDecl) (read : FileReader) (scale : Int64) (weights : Prop)
    (dims : List Int) : ParamType → Bytes → Prop
  | reals {values stored : List Float} {bytes : Bytes} (htype : c.type = .float)
      (hvalues : c.DeclaresReals read values) (horder : Arranged weights dims values stored)
      (hbytes : bytes = stored.flatMap fun x => Wire.i16 (quantize (descale x scale)))
      (hwords : (Wire.wordsOf 2 bytes).map (fun w : Nat => (w : Int).bmod (2 ^ 16)) =
        stored.map fun x => quantize (descale x scale)) :
      StoredAs c read scale weights dims .fixed16 bytes
  | integers {values : List Int64} {bytes : Bytes} (htype : c.type = .int64)
      (hvalues : c.DeclaresIntegers read values)
      (hbytes : bytes = values.flatMap fun n => Wire.i64 n.toInt)
      (hwords : (Wire.wordsOf 8 bytes).map Int64.ofNat = values) :
      StoredAs c read scale weights dims .int64 bytes

/-- The bytes of an element. -/
def ElementType.width (type : ElementType) : Int := if type = .float then 2 else 8

/-! ## Words -/

theorem quantize_bounds (x : Float) : -32768 ≤ quantize x ∧ quantize x ≤ 32767 := by
  unfold quantize Q15.ofValue
  split <;> omega

/-- A fixed-point word is read back as it was written. -/
theorem bmod_quantize (x : Float) :
    (Wire.toNat (Wire.i16 (quantize x)) : Int).bmod (2 ^ 16) = quantize x := by
  obtain ⟨hlow, hhigh⟩ := quantize_bounds x
  rw [Wire.bmod_toNat_i16]
  exact Int.bmod_eq_of_le (by omega) (by omega)

theorem map_wordsOf_quantized (scale : Int64) (xs : List Float) :
    (Wire.wordsOf 2 (xs.flatMap fun x => Wire.i16 (quantize (descale x scale)))).map
      (fun w : Nat => (w : Int).bmod (2 ^ 16)) = xs.map fun x => quantize (descale x scale) := by
  refine Wire.map_wordsOf_flatMap Nat.two_pos (fun x => Wire.length_i16 _) ?_ xs
  exact fun x => bmod_quantize (descale x scale)

theorem map_wordsOf_integers (values : List Int64) :
    (Wire.wordsOf 8 (values.flatMap fun n => Wire.i64 n.toInt)).map Int64.ofNat = values := by
  refine (Wire.map_wordsOf_flatMap (by decide) (fun n => Wire.length_i64 _) ?_ values).trans
    (List.map_id values)
  exact Wire.ofNat_toNat_i64

/-! ## Values -/

namespace Parameters

theorem load_eq_ok {ctx : Context} {c : ConstDecl} {path : Bytes} {width : Nat} {data : Bytes}
    (h : load ctx c path width = .ok data) :
    ∃ bytes, ctx.read path = .ok bytes ∧ width ∣ bytes.size ∧ data = bytes.data.toList := by
  unfold load at h
  split at h
  · cases h
  · rename_i bytes hread
    split at h
    · rename_i hmod
      cases h
      exact ⟨bytes, hread, Nat.dvd_of_mod_eq_zero hmod, rfl⟩
    · cases h

theorem declaresReals_of_reals {ctx : Context} {c : ConstDecl} {values : List Float}
    (h : reals ctx c = .ok values) : c.DeclaresReals ctx.read values := by
  unfold reals at h
  split at h
  · rename_i path hdata
    obtain ⟨data, hload, rfl⟩ := map_eq_ok.mp h
    obtain ⟨bytes, hread, hsize, rfl⟩ := load_eq_ok hload
    rw [Wire.words_eq]
    exact .file hdata hread hsize
  · rename_i texts hdata
    refine .inline hdata ((mapM_eq_ok.mp h).imp ?_)
    intro text x hx
    split at hx
    · rename_i y hy
      cases hx
      exact ⟨y, hy, rfl⟩
    · cases hx

theorem declaresIntegers_of_integers {ctx : Context} {c : ConstDecl} {values : List Int64}
    (h : integers ctx c = .ok values) : c.DeclaresIntegers ctx.read values := by
  unfold integers at h
  split at h
  · rename_i path hdata
    obtain ⟨data, hload, rfl⟩ := map_eq_ok.mp h
    obtain ⟨bytes, hread, hsize, rfl⟩ := load_eq_ok hload
    rw [Wire.words_eq]
    exact .file hdata hread hsize
  · rename_i texts hdata
    refine .inline hdata ((mapM_eq_ok.mp h).imp ?_)
    intro text x hx
    split at hx
    · rename_i y hy
      cases hx
      exact hy
    · cases hx

theorem reorder_eq_ok {c : ConstDecl} {values stored : List Float}
    (h : (reorder c values).result = .ok stored) :
    ∃ n k h w, c.dims = [n, k, h, w] ∧
      channelsLast 0.0 values (extent n) (extent k) (extent h) (extent w) = some stored := by
  unfold reorder at h
  split at h
  · rename_i n k y x hdims
    refine ⟨n, k, y, x, hdims, ?_⟩
    simp only [Traced.result_bind, Traced.result_tell] at h
    obtain ⟨_, -, h⟩ := bind_eq_ok.mp h
    split at h
    · cases h
      assumption
    · cases h
  · cases h

theorem extent_of_isSize {d : Int64} (h : IsSize d) : (extent d : Int) = d.toInt :=
  Int.toNat_of_nonneg (by have := h.1; omega)

theorem channelsInnermost_of_reorder {c : ConstDecl} {values stored : List Float}
    (hdims : ∀ d ∈ c.dims, IsSize d) (hcount : (values.length : Int) = (c.dims.map Int64.toInt).prod)
    (h : (reorder c values).result = .ok stored) :
    ∃ n k h w : Nat, c.dims.map Int64.toInt = [(n : Int), (k : Int), (h : Int), (w : Int)] ∧
      ChannelsInnermost n k h w values stored := by
  obtain ⟨n, k, y, x, heq, hlast⟩ := reorder_eq_ok h
  rw [heq] at hdims hcount
  simp only [List.forall_mem_cons] at hdims
  obtain ⟨hn, hk, hy, hx, -⟩ := hdims
  have hlen : values.length = extent n * extent k * extent y * extent x := by
    zify
    rw [hcount, extent_of_isSize hn, extent_of_isSize hk, extent_of_isSize hy,
      extent_of_isSize hx]
    simp [mul_assoc]
  refine ⟨_, _, _, _, ?_, channelsInnermost_of_channelsLast hlen hlast⟩
  rw [heq, extent_of_isSize hn, extent_of_isSize hk, extent_of_isSize hy, extent_of_isSize hx]
  rfl

theorem length_flatMap_wire {α : Type} {width : Nat} {f : α → Bytes}
    (hf : ∀ x, (f x).length = width) (xs : List α) :
    (xs.flatMap f).length = xs.length * width := by
  induction xs with
  | nil => simp
  | cons x xs ih =>
    rw [List.flatMap_cons, List.length_append, ih, hf, List.length_cons]
    ring

/-- The stored form of a constant and its size, which the dims give exactly. -/
def Stores (ctx : Context) (c : ConstDecl) (type : ParamType) (bytes : Bytes) : Prop :=
  c.StoredAs ctx.read ctx.config.scale (ctx.weights.contains c.tensor = true)
      (c.dims.map Int64.toInt) type bytes ∧
    (bytes.length : Int) = (c.dims.map Int64.toInt).prod * c.type.width

variable {ctx : Context} {c : ConstDecl}

theorem stores_reals {values stored : List Float} (htype : c.type = .float)
    (hvalues : reals ctx c = .ok values)
    (hcount : (values.length : Int) = (c.dims.map Int64.toInt).prod)
    (horder : Arranged (ctx.weights.contains c.tensor = true) (c.dims.map Int64.toInt) values stored) :
    Stores ctx c .fixed16 (Quantized.ofValues ctx.config.scale stored).bytes := by
  have hbytes : (Quantized.ofValues ctx.config.scale stored).bytes =
      stored.flatMap fun x => Wire.i16 (quantize (descale x ctx.config.scale)) := by
    simp only [Quantized.ofValues, List.flatMap_map]
  have hlen : stored.length = values.length := by
    rcases horder with ⟨-, _, _, _, _, -, h⟩ | ⟨-, rfl⟩
    · exact h.length
    · rfl
  rw [Stores, hbytes, length_flatMap_wire (fun x => Wire.length_i16 _), hlen, htype]
  refine ⟨.reals htype (declaresReals_of_reals hvalues) horder rfl (map_wordsOf_quantized _ _), ?_⟩
  push_cast
  rw [hcount]
  rfl

theorem stores_of_encode {type : ParamType} {bytes : Bytes} {overflows : Nat}
    (hdims : ∀ d ∈ c.dims, IsSize d) (hlen : c.dims.length ≤ dimsLen)
    (h : (encode ctx c).result = .ok (type, bytes, overflows)) : Stores ctx c type bytes := by
  have hexact : ∀ {n : Nat}, (n : Int) = (elementCount c.dims).toInt →
      (n : Int) = (c.dims.map Int64.toInt).prod := by
    intro n hn
    exact hn.trans (toInt_elementCount hdims hlen (by omega))
  unfold encode at h
  simp only at h
  split at h
  · rename_i htype
    simp only [Traced.result_bind, Traced.result_ofExcept] at h
    obtain ⟨values, hvalues, h⟩ := bind_eq_ok.mp h
    split at h
    · cases h
    · rename_i hcount
      simp only [not_or, not_not] at hcount
      have hcount := hexact hcount.1
      split at h
      · rename_i hweights
        simp only [Traced.result_bind, Traced.result_tell, Traced.result_pure] at h
        obtain ⟨stored, hstored, h⟩ := bind_eq_ok.mp h
        cases h
        exact stores_reals htype hvalues hcount
          (.inl ⟨hweights, channelsInnermost_of_reorder hdims hcount hstored⟩)
      · rename_i hplain
        cases h
        exact stores_reals htype hvalues hcount (.inr ⟨hplain, rfl⟩)
  · rename_i htype
    simp only [Traced.result_bind, Traced.result_ofExcept] at h
    obtain ⟨values, hvalues, h⟩ := bind_eq_ok.mp h
    split at h
    · cases h
    · rename_i hcount
      cases h
      rw [Stores, length_flatMap_wire (fun n => Wire.length_i64 _), htype]
      refine ⟨.integers htype (declaresIntegers_of_integers hvalues) rfl
        (map_wordsOf_integers values), ?_⟩
      push_cast
      rw [hexact (not_not.mp hcount)]
      rfl
  · cases h

end Parameters
end NetImage
