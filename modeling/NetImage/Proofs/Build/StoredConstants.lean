import NetImage.Proofs.Build.Compile
import NetImage.Proofs.Build.Numbering
import NetImage.Proofs.Build.Placement
import NetImage.Proofs.Image

/-!
# NetImage.Proofs.Build.StoredConstants

The constants of a compiled model in its image. Every constant of the graph has one record, which
says where its bytes are, and the constants of each parameter stream fill it.

* `Compiled.Holds`: the record of a constant and its bytes in the image.
* `Compile.Ends.holds_of_recorded`: what placing has recorded is so.
* `keepsConstants_of_compile`: all constants, and the streams they fill.
-/

namespace NetImage

/-- The stream that holds the region with the given slot. -/
def Stream.ofSlot (slot : Int) : Stream :=
  if slot = slotParameters then .parameters else .parameters2

theorem Stream.getElem?_all {α : Type} (f : Stream → α) (s : Stream) :
    (all.map f)[all.idxOf s]? = some (f s) := by
  cases s <;> rfl

/-- The record `p` of constant `c` and the bytes that it points at. -/
structure Compiled.Holds (out : Compiled) (decls : List Decl) (read : FileReader) (c : ConstDecl)
    (p : Param) : Prop where
  name : p.name = c.tensor
  input : p.input = false
  bytes : p.bytes = p.dims.prod * c.type.width
  slot : p.slot = if p.bytes ≤ out.plan.config.paramThreshold.toInt then 0xf0 else 0xf1
  contents : ∃ start offset size : Nat,
    out.image.offsets[Stream.all.idxOf (Stream.ofSlot p.slot)]? = some (start : Int) ∧
    p.offset = offset ∧ p.bytes = size ∧
    c.StoredAs read out.plan.config.scale ((Sources.byKind decls).IsWeights c.tensor) p.dims p.type
      (out.image.part (start + offset) (start + offset + size))

/-- The constants of a compiled model. Each has a record, each record that is not an input's is that of
a constant, and the constants of each parameter stream follow each other from its start to its end. -/
structure Compiled.KeepsConstants (out : Compiled) (decls : List Decl) (read : FileReader) :
    Prop where
  ids : ∀ (i : Nat) (p : Param), out.plan.params[i]? = some p → p.id = i
  names : (out.plan.params.map Param.name).Nodup
  records : ∀ c, Decl.const c ∈ decls → ∃ p ∈ out.plan.params, out.Holds decls read c p
  owners : ∀ p ∈ out.plan.params, p.input = false →
    ∃ c, Decl.const c ∈ decls ∧ out.Holds decls read c p
  tiles : ∀ slot ∈ [slotParameters, slotParameters2],
    Tiles (Parameters.inSlot slot out.plan.params) 0 (out.bundle.stream (Stream.ofSlot slot)).size
  streams : ∀ slot ∈ [slotParameters, slotParameters2], ∃ start : Nat,
    out.image.offsets[Stream.all.idxOf (Stream.ofSlot slot)]? = some (start : Int) ∧
    out.image.part start (start + (out.bundle.stream (Stream.ofSlot slot)).size) =
      (out.bundle.stream (Stream.ofSlot slot)).data.toList

namespace ConstDecl

/-- The stored form does not depend on the dims of the declaration. -/
theorem StoredAs.of_reshaped {c : ConstDecl} {shape : List Int64} {read : FileReader}
    {scale : Int64} {weights : Prop} {dims : List Int} {type : ParamType} {bytes : Bytes}
    (h : StoredAs { c with dims := shape } read scale weights dims type bytes) :
    c.StoredAs read scale weights dims type bytes := by
  cases h with
  | reals htype hvalues horder hbytes hwords =>
    refine .reals htype ?_ horder hbytes hwords
    cases hvalues with
    | inline hdata hvalues => exact .inline hdata hvalues
    | file hdata hread hsize => exact .file hdata hread hsize
  | integers htype hvalues hbytes hwords =>
    refine .integers htype ?_ hbytes hwords
    cases hvalues with
    | inline hdata hvalues => exact .inline hdata hvalues
    | file hdata hread hsize => exact .file hdata hread hsize

end ConstDecl

namespace Compile

variable {decls : List Decl} {samples : List Sample} {config : Config} {read : FileReader}
  {out : Compiled}

/-- The end of placing, as the compiled model has it. -/
structure Ends (st : Finished decls samples config read out) (s : Parameters.State) : Prop where
  placed : s.Placed st.context st.numbering.params
  records : out.plan.params = s.done.reverse
  region1 : out.bundle.stream .parameters = s.regions.first.data
  region2 : out.bundle.stream .parameters2 = s.regions.second.data

theorem exists_ends (st : Finished decls samples config read out) :
    ∃ s : Parameters.State, Ends st s := by
  obtain ⟨s, hs, hrecords, h₁, h₂⟩ := Parameters.placed_of_place st.hparams
  obtain ⟨hs₁, hs₂, -⟩ := stream_of_ofPlan st.hbundle
  refine ⟨s, hs, ?_, ?_, ?_⟩
  · rw [st.hplan, ← hrecords]
  · rw [hs₁, st.hplan, ← h₁]
  · rw [hs₂, st.hplan, ← h₂]

variable {st : Finished decls samples config read out} {s : Parameters.State}

theorem Ends.contents_eq (h : Ends st s) {slot : Int}
    (hslot : slot = slotParameters ∨ slot = slotParameters2) :
    (out.bundle.stream (Stream.ofSlot slot)).data.toList = s.regions.contents slot := by
  rcases hslot with rfl | rfl
  · rw [Stream.ofSlot, if_pos rfl, h.region1, Regions.contents, if_pos rfl]
  · rw [Stream.ofSlot, if_neg Regions.slots_ne, h.region2, Regions.contents,
      if_neg Regions.slots_ne, if_pos rfl]

/-- The regions are in the image, each where its stream starts. -/
theorem Ends.part_eq (h : Ends st s) {slot : Int}
    (hslot : slot = slotParameters ∨ slot = slotParameters2) :
    ∃ start : Nat,
      out.image.offsets[Stream.all.idxOf (Stream.ofSlot slot)]? = some (start : Int) ∧
      ∀ a b, b ≤ (s.regions.contents slot).length →
        out.image.part (start + a) (start + b) = (s.regions.contents slot).slice a b := by
  obtain ⟨start, hstart, hpart⟩ := Image.section_eq st.himage
    (Stream.getElem?_all out.bundle.stream (Stream.ofSlot slot))
  rw [h.contents_eq hslot] at hpart
  refine ⟨start, hstart, fun a b hb => hpart a b ?_⟩
  rw [← h.contents_eq hslot] at hb
  exact hb

theorem Ends.holds_of_recorded (h : Ends st s) (hrange : ∀ d ∈ decls, d.InRange) {c : ConstDecl}
    (hc : Decl.const c ∈ decls) {p : Param}
    (hp : Parameters.Recorded st.context s.regions (.stored (st.folding.reshape c)) p) :
    out.Holds decls read c p := by
  have hmem : c ∈ st.sources.consts := by
    rw [st.sources_eq, Sources.mem_byKind_consts]
    exact hc
  obtain ⟨shape, hshape, hsub⟩ := st.folds.reshape_eq hmem
  rw [hshape] at hp
  have hconfig : out.plan.config = config := by rw [st.hplan]
  cases hp with
  | @const id offset _ type bytes overflows hdims hencode hplace hbytes =>
    have hsizes : ∀ d ∈ shape, IsSize d := fun d hd => hrange _ hc d (hsub.subset hd)
    obtain ⟨hstored, hlength⟩ := Parameters.stores_of_encode hsizes hdims hencode
    refine ⟨rfl, rfl, hlength, by rw [hconfig]; rfl, ?_⟩
    obtain ⟨start, hstart, hpart⟩ :=
      h.part_eq (slotFor_cases config.paramThreshold.toInt bytes.length)
    refine ⟨start, offset, bytes.length, hstart, rfl, rfl, ?_⟩
    rw [Nat.add_assoc, hpart _ _ hplace, hconfig, ← propext (st.contains_weights c.tensor)]
    exact (hbytes.symm ▸ hstored).of_reshaped

theorem Ends.map_name_records (h : Ends st s) :
    out.plan.params.map Param.name = Numbering.paramNames st.sources.inputs st.consts := by
  rw [← Numbering.map_tensor_paramSources st.nodup_consts, ← st.params_eq, h.records, eq_comm,
    ← List.forall₂_eq_eq_eq, List.forall₂_map_left_iff, List.forall₂_map_right_iff]
  refine h.placed.records.imp ?_
  intro src p hp
  cases hp <;> rfl

end Compile

theorem keepsConstants_of_compile {text : Bytes} {samples : List Sample} {config : Config}
    {read : FileReader} {out : Compiled}
    (h : (compile text samples config read).result = .ok out) :
    ∃ decls, parse text = .ok decls ∧ out.plan.config = config ∧ out.KeepsConstants decls read := by
  obtain ⟨decls, hparse, ⟨st⟩⟩ := finished_of_compile h
  obtain ⟨s, hs⟩ := Compile.exists_ends st
  have hrange := inRange_of_parse hparse
  refine ⟨decls, hparse, by rw [st.hplan], ?_, ?_, ?_, ?_, ?_, ?_⟩
  · rw [hs.records]
    exact hs.placed.ids
  · rw [hs.map_name_records]
    exact Numbering.nodup_paramNames st.named.inputs st.nodup_consts
  · intro c hc
    have hstored : .stored (st.folding.reshape c) ∈ st.numbering.params := by
      rw [st.params_eq, Numbering.stored_mem_paramSources st.nodup_consts]
      refine List.mem_map_of_mem ?_
      rw [st.sources_eq, Sources.mem_byKind_consts]
      exact hc
    obtain ⟨p, hp, hrecorded⟩ := exists_right_of_forall₂ hs.placed.records hstored
    exact ⟨p, hs.records ▸ hp, hs.holds_of_recorded hrange hc hrecorded⟩
  · intro p hp hinput
    rw [hs.records] at hp
    obtain ⟨src, hsrc, hrecorded⟩ := exists_left_of_forall₂ hs.placed.records hp
    cases src with
    | fed i =>
      cases hrecorded
      cases hinput
    | stored c' =>
      rw [st.params_eq, Numbering.stored_mem_paramSources st.nodup_consts] at hsrc
      obtain ⟨c, hc, rfl⟩ := List.mem_map.mp hsrc
      rw [st.sources_eq, Sources.mem_byKind_consts] at hc
      exact ⟨c, hc, hs.holds_of_recorded hrange hc hrecorded⟩
  · intro slot hslot
    have hsize := congrArg List.length (hs.contents_eq (List.mem_pair.mp hslot))
    rw [hs.records, show (out.bundle.stream (Stream.ofSlot slot)).size = _ from hsize]
    exact hs.placed.tiles slot
  · intro slot hslot
    have hcontents := hs.contents_eq (List.mem_pair.mp hslot)
    obtain ⟨start, hstart, hpart⟩ := hs.part_eq (List.mem_pair.mp hslot)
    refine ⟨start, hstart, ?_⟩
    rw [show (out.bundle.stream (Stream.ofSlot slot)).size = _ from
      congrArg List.length hcontents, hcontents]
    simpa using hpart 0 _ le_rfl

/-- Weights of a convolution in the first region, where they stand with the channel innermost, and a
shape in the second. -/
def reshapedConv : Bytes := ascii
  "Input ToTensor=x Channels=2 Height=1 Width=2
Const ToTensor=k Type=Float Dims=1x2x1x2 Data=1,-2.5,0.25,8
Const ToTensor=s Type=Int64 Dims=2 Data=1,-1
Conv Name=c FromTensor=x WeightsTensor=k BiasesTensor=- ToTensor=y Strides=1,1 AutoPad=VALID
Reshape Name=r FromTensor=y ShapeTensor=s ToTensor=z
"

def reshapedConvConfig : Config :=
  { scale := 8, numSlots := 2, intermediateValuesSize := 16, nvmSize := 2000, paramThreshold := 8 }

theorem reshapedConv_keepsConstants :
    ∃ out decls, (compile reshapedConv [] reshapedConvConfig fun _ => .error []).result = .ok out ∧
      parse reshapedConv = .ok decls ∧ out.KeepsConstants decls (fun _ => .error []) ∧
      (Wire.wordsOf 2 (out.image.part 32 40)).map (fun w : Nat => (w : Int).bmod (2 ^ 16)) =
        [4096, 1024, -10240, 32767] ∧
      (Wire.wordsOf 8 (out.image.part 40 56)).map Int64.ofNat = [1, -1] := by
  have hwords : (compile reshapedConv [] reshapedConvConfig fun _ => .error []).result.map
      (fun out =>
        ((Wire.wordsOf 2 (out.image.part 32 40)).map fun w : Nat => (w : Int).bmod (2 ^ 16),
          (Wire.wordsOf 8 (out.image.part 40 56)).map Int64.ofNat)) =
      .ok ([4096, 1024, -10240, 32767], [1, -1]) := by
    decide +kernel
  obtain ⟨out, hout, hwords⟩ := map_eq_ok.mp hwords
  obtain ⟨hfirst, hsecond⟩ := Prod.mk.inj hwords
  obtain ⟨decls, hparse, -, h⟩ := keepsConstants_of_compile hout
  exact ⟨out, decls, hout, hparse, h, hfirst, hsecond⟩

end NetImage
