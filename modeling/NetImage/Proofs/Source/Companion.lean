import NetImage.Proofs.Model.Decoding
import NetImage.Proofs.Source.DataFiles

/-!
# NetImage.Proofs.Source.Companion

The source files that accompany an image carry its streams. Each array is defined once, its initializer
is read back as the bytes of its stream, and its two lengths are the number of these bytes.

* `DefinesArray`, `DefinesMacro`: what a file defines, by its lines.
* `DataFiles.count_sourceLines`, `DataFiles.count_headerLines`: an array has one line of each kind.
* `companion_of_ofPlan`: what is written for a plan.
-/

namespace NetImage

/-- One line of the file alone begins a definition of this array. It gives the length `n`, and what
stands up to the closing brace is read as `data`. -/
structure DefinesArray (file name : Bytes) (n : Nat) (data : Bytes) : Prop where
  once : (Bytes.split 0x0a file).countP (fun l => (arrayHead name).isPrefixOf l) = 1
  initializer : ∃ before body after,
    Bytes.split 0x0a file =
      before ++ (arrayHead name ++ (decimal n ++ ascii "] = \x7b")) ::
        (body ++ ascii "\x7d;" :: after) ∧
    (∀ l ∈ body, 0x7d ∉ l) ∧ readInitializer body.flatten = some data

/-- One line of the file alone begins a definition of this macro, and it gives the value `n`. -/
structure DefinesMacro (file name : Bytes) (n : Nat) : Prop where
  once : (Bytes.split 0x0a file).countP (fun l => (macroHead name).isPrefixOf l) = 1
  value : macroHead name ++ decimal n ∈ Bytes.split 0x0a file

/-- The streams that have an array, in the order of the arrays. -/
def Stream.arrays : List Stream := [.parameters, .parameters2, .model, .counters, .samples, .labels]

/-- The bytes of a stream that its array has: all of them, but of the samples and the labels only as
many as the first sample and its label have. -/
def Bundle.carried (b : Bundle) (plan : Plan) (s : Stream) : Bytes :=
  let all := (b.stream s).data.toList
  match s with
  | .samples | .labels =>
    if plan.labels.isEmpty then [] else all.take (all.length / plan.labels.length)
  | _ => all

namespace DataFiles

open Fragment

/-! ## Counting definitions -/

/-- A definition begins with the head of a stream's definition only if it is that stream's. -/
theorem isPrefixOf_definition {lead : Bytes} {stop : UInt8} {name : Stream → Bytes}
    (hstop : ∀ s, stop ∉ name s) (hname : ∀ s s', name s = name s' → s = s') (s s' : Stream)
    (rest : Bytes) :
    (lead ++ (name s ++ [stop])).isPrefixOf (lead ++ (name s' ++ [stop]) ++ rest) =
      decide (s' = s) := by
  by_cases hs : s' = s
  · subst hs
    simp [List.isPrefixOf_iff_prefix]
  · rw [decide_eq_false hs, ← Bool.not_eq_true, List.isPrefixOf_iff_prefix, List.append_assoc lead,
      List.prefix_append_right_inj, List.append_assoc]
    exact fun h => hs (hname s s' (Bytes.eq_of_separated (hstop s) (hstop s') h)).symm

theorem isPrefixOf_arrayHead (s s' : Stream) (rest : Bytes) :
    (arrayHead (arrayName s)).isPrefixOf (arrayHead (arrayName s') ++ rest) = decide (s' = s) := by
  refine isPrefixOf_definition ?_ ?_ s s' rest
  · intro x
    cases x <;> decide
  · intro x y
    cases x <;> cases y <;> decide

theorem isPrefixOf_macroHead (s s' : Stream) (rest : Bytes) :
    (macroHead s.lengthMacro).isPrefixOf (macroHead s'.lengthMacro ++ rest) = decide (s' = s) := by
  refine isPrefixOf_definition ?_ ?_ s s' rest
  · intro x
    cases x <;> decide
  · intro x y
    cases x <;> cases y <;> decide

theorem count_sourceLines (s s' : Stream) (data : ByteArray) :
    (indentLines 0 (sourceLines s' data)).countP (fun l => (arrayHead (arrayName s)).isPrefixOf l) =
      if s' = s then 1 else 0 := by
  have hrows : ((hexRows data.data.toList).map (indentLine 1)).countP
      (fun l => (arrayHead (arrayName s)).isPrefixOf l) = 0 := by
    rw [List.countP_eq_zero]
    intro l hl
    obtain ⟨row, hrow, rfl⟩ := List.mem_map.mp hl
    rw [(rows_hexRows data.data.toList).indentLine_row row hrow, List.isPrefixOf_iff_prefix]
    exact (elsewhere_tab row).array _
  rw [indentLines_sourceLines]
  simp only [List.countP_cons, List.countP_append, List.countP_nil, hrows, isPrefixOf_arrayHead,
    decide_eq_true_eq]
  by_cases hs : s' = s
  · rw [if_pos hs]
    rfl
  · rw [if_neg hs]
    rfl

theorem count_headerLines (s s' : Stream) (data : ByteArray) :
    (indentLines 0 (headerLines s' data)).countP
      (fun l => (macroHead s.lengthMacro).isPrefixOf l) = if s' = s then 1 else 0 := by
  rw [indentLines_headerLines]
  simp only [headerLines, List.countP_cons, List.countP_nil, isPrefixOf_macroHead, decide_eq_true_eq]
  by_cases hs : s' = s
  · rw [if_pos hs]
    rfl
  · rw [if_neg hs]
    rfl

/-- Counted in a whole file, if each stream has one array. -/
theorem count_of_surrounds {file : Bytes} {block : Stream → List Bytes} {head : Bytes} {s : Stream}
    (h : Surrounds file (Stream.arrays.flatMap block)) (hhead : ∀ l, Elsewhere l → ¬head <+: l)
    (hblock : ∀ s', (block s').countP (fun l => head.isPrefixOf l) = if s' = s then 1 else 0) :
    (Bytes.split 0x0a file).countP (fun l => head.isPrefixOf l) = 1 := by
  obtain ⟨before, after, hsplit, helse⟩ := h.lines
  have hnone : ∀ ls : List Bytes, (∀ l ∈ ls, Elsewhere l) →
      ls.countP (fun l => head.isPrefixOf l) = 0 := by
    intro ls hls
    rw [List.countP_eq_zero]
    intro l hl
    rw [List.isPrefixOf_iff_prefix]
    exact hhead l (hls l hl)
  rw [List.forall_mem_append] at helse
  rw [hsplit, List.countP_append, List.countP_append, hnone before helse.1, hnone after helse.2,
    List.countP_flatMap]
  have hsum : Stream.arrays.map (List.countP (fun l => head.isPrefixOf l) ∘ block) =
      Stream.arrays.map fun s' => if s' = s then 1 else 0 :=
    List.map_congr_left fun s' _ => hblock s'
  rw [hsum]
  cases s <;> rfl

/-! ## The two files -/

variable {data : Stream → ByteArray}

theorem exists_definition (s : Stream) (data : ByteArray) :
    ∃ pre post, indentLines 0 (sourceLines s data) =
      pre ++ (arrayHead (arrayName s) ++ (decimal data.data.toList.length ++ ascii "] = \x7b")) ::
        ((hexRows data.data.toList).map (indentLine 1) ++ ascii "\x7d;" :: post) :=
  ⟨[_, _], _, indentLines_sourceLines s data⟩

theorem definesArray_of_surrounds {file : Bytes}
    (h : Surrounds file (Stream.arrays.flatMap fun s => indentLines 0 (sourceLines s (data s))))
    (s : Stream) :
    DefinesArray file (arrayName s) (data s).data.toList.length (data s).data.toList := by
  refine ⟨count_of_surrounds h (fun l hl => hl.array _) (fun s' => count_sourceLines s s' _), ?_⟩
  obtain ⟨before, after, hsplit, -⟩ := h.lines
  obtain ⟨left, right, harrays⟩ : ∃ left right, Stream.arrays = left ++ s :: right :=
    List.append_of_mem (by cases s <;> decide)
  obtain ⟨pre, post, hdefinition⟩ := exists_definition s (data s)
  have hrows := rows_hexRows (data s).data.toList
  rw [harrays, List.flatMap_append, List.flatMap_cons, hdefinition] at hsplit
  refine ⟨before ++ (left.flatMap (fun s => indentLines 0 (sourceLines s (data s))) ++ pre),
    (hexRows (data s).data.toList).map (indentLine 1),
    post ++ (right.flatMap (fun s => indentLines 0 (sourceLines s (data s))) ++ after), ?_, ?_,
    hrows.readInitializer_indented⟩
  · rw [hsplit]
    simp only [List.append_assoc, List.cons_append]
  · intro l hl
    obtain ⟨row, hrow, rfl⟩ := List.mem_map.mp hl
    rw [hrows.indentLine_row row hrow]
    intro hmem
    rcases List.mem_cons.mp hmem with h | h
    · cases h
    · exact (ne_of_inline (hrows.inline row hrow) h).2.2 rfl

theorem definesMacro_of_surrounds {file : Bytes}
    (h : Surrounds file (Stream.arrays.flatMap fun s => indentLines 0 (headerLines s (data s))))
    (s : Stream) : DefinesMacro file s.lengthMacro (data s).data.toList.length := by
  refine ⟨count_of_surrounds h (fun l hl => hl.length s) (fun s' => count_headerLines s s' _), ?_⟩
  obtain ⟨before, after, hsplit, -⟩ := h.lines
  rw [hsplit]
  refine List.mem_append_right _ (List.mem_append_left _ (List.mem_flatMap.mpr ⟨s, ?_, ?_⟩))
  · cases s <;> decide
  · rw [indentLines_headerLines]
    exact List.mem_cons_of_mem _ List.mem_cons_self

end DataFiles

/-- The arrays of a bundle, before they are written. -/
def Bundle.array (b : Bundle) (plan : Plan) (s : Stream) : ByteArray :=
  match s with
  | .samples => firstOf plan.labels.length (b.stream .samples)
  | .labels => firstOf plan.labels.length (b.stream .labels)
  | s => b.stream s

theorem Bundle.toList_firstOf (labels : List Int) (all : ByteArray) :
    (firstOf labels.length all).data.toList =
      if labels.isEmpty then []
      else all.data.toList.take (all.data.toList.length / labels.length) := by
  cases labels with
  | nil => rfl
  | cons label labels =>
    rw [firstOf, if_neg (by simp), if_neg (by simp), Array.length_toList]
    simp

theorem Bundle.toList_array (b : Bundle) (plan : Plan) (s : Stream) :
    (b.array plan s).data.toList = b.carried plan s := by
  cases s with
  | samples => exact toList_firstOf plan.labels (b.stream .samples)
  | labels => exact toList_firstOf plan.labels (b.stream .labels)
  | parameters => rfl
  | parameters2 => rfl
  | model => rfl
  | counters => rfl

theorem Bundle.dataVars_eq (b : Bundle) (plan : Plan) :
    dataVars b.stream plan.labels.length =
      Stream.arrays.map fun s => ⟨DataFiles.arrayName s, b.array plan s⟩ := rfl

theorem Bundle.files_of_ofPlan {plan : Plan} {b : Bundle} (h : ofPlan plan = .ok b) :
    let sections := DataFiles.sections plan.config (dataVars b.stream plan.labels.length)
    b.header = sections.header ∧ b.source = sections.source := by
  unfold ofPlan at h
  obtain ⟨model, -, h⟩ := bind_eq_ok.mp h
  obtain rfl := Except.ok.inj h
  dsimp only
  exact ⟨rfl, rfl⟩

/-- The source of a bundle has an array for each stream. -/
theorem Bundle.definesArray_of_ofPlan {plan : Plan} {b : Bundle} (h : ofPlan plan = .ok b)
    (s : Stream) :
    DefinesArray b.source.data.toList (s.name ++ ascii "_data") (b.carried plan s).length
      (b.carried plan s) := by
  obtain ⟨-, hsource⟩ := files_of_ofPlan h
  have hsurrounds := DataFiles.surrounds_source plan.config (b.array plan) Stream.arrays
  rw [← dataVars_eq, ← hsource] at hsurrounds
  rw [← toList_array]
  exact DataFiles.definesArray_of_surrounds hsurrounds s

/-- **The source files carry the streams.** For every plan that can be written, the source defines
one array for each stream, of which the initializer is read as the bytes that the array has, and its
declared length and the macro of the header are their number. In neither file a line outside a block
starts with a tab. -/
theorem companion_of_ofPlan {plan : Plan} {b : Bundle} (h : Bundle.ofPlan plan = .ok b) :
    (∀ s : Stream,
      DefinesArray b.source.data.toList (s.name ++ ascii "_data") (b.carried plan s).length
        (b.carried plan s) ∧
      DefinesMacro b.header.data.toList s.lengthMacro (b.carried plan s).length) ∧
    TabsInBlocks (Bytes.split 0x0a b.source.data.toList) ∧
    TabsInBlocks (Bytes.split 0x0a b.header.data.toList) := by
  obtain ⟨hheader, hsource⟩ := Bundle.files_of_ofPlan h
  have hsource' := DataFiles.surrounds_source plan.config (b.array plan) Stream.arrays
  have hheader' := DataFiles.surrounds_header plan.config (b.array plan) Stream.arrays
  rw [← Bundle.dataVars_eq, ← hsource] at hsource'
  rw [← Bundle.dataVars_eq, ← hheader] at hheader'
  refine ⟨?_, hsource'.tabs, hheader'.tabs⟩
  intro s
  rw [← Bundle.toList_array]
  exact ⟨DataFiles.definesArray_of_surrounds hsource' s,
    DataFiles.definesMacro_of_surrounds hheader' s⟩

/-- A plan with one byte more than a row holds, and two samples of three bytes each. -/
def twoSamplePlan : Plan :=
  { twoNodePlan with
    region1 := ⟨#[0, 1, 2, 3, 4, 5, 6, 7, 8, 9, 10, 11, 12, 13, 14, 15, 0xff]⟩
    samples := ⟨#[0x7b, 0x0a, 0x7d, 4, 5, 6]⟩
    labels := [9, 0] }

theorem twoSamplePlan_companion :
    ∃ b, Bundle.ofPlan twoSamplePlan = .ok b ∧
      DefinesArray b.source.data.toList (ascii "parameters_data") 17
        [0, 1, 2, 3, 4, 5, 6, 7, 8, 9, 10, 11, 12, 13, 14, 15, 0xff] ∧
      DefinesMacro b.header.data.toList (ascii "PARAMETERS_DATA_LEN") 17 ∧
      DefinesArray b.source.data.toList (ascii "parameters2_data") 0 [] ∧
      DefinesArray b.source.data.toList (ascii "samples_data") 3 [0x7b, 0x0a, 0x7d] ∧
      DefinesArray b.source.data.toList (ascii "labels_data") 1 [9] ∧
      DefinesMacro b.header.data.toList (ascii "LABELS_DATA_LEN") 1 ∧
      TabsInBlocks (Bytes.split 0x0a b.source.data.toList) := by
  have hcarried : (Bundle.ofPlan twoSamplePlan).map (fun b => (b.carried twoSamplePlan .parameters,
      b.carried twoSamplePlan .parameters2, b.carried twoSamplePlan .samples,
      b.carried twoSamplePlan .labels)) =
      .ok ([0, 1, 2, 3, 4, 5, 6, 7, 8, 9, 10, 11, 12, 13, 14, 15, 0xff], [], [0x7b, 0x0a, 0x7d],
        [9]) := by
    decide +kernel
  obtain ⟨b, hb, hcarried⟩ := map_eq_ok.mp hcarried
  obtain ⟨hparameters, hparameters2, hsamples, hlabels⟩ :
      b.carried twoSamplePlan .parameters = _ ∧ b.carried twoSamplePlan .parameters2 = _ ∧
        b.carried twoSamplePlan .samples = _ ∧ b.carried twoSamplePlan .labels = _ := by
    simpa only [Prod.mk.injEq] using hcarried
  obtain ⟨hfiles, htabs, -⟩ := companion_of_ofPlan hb
  have h₁ := hfiles .parameters
  have h₂ := hfiles .parameters2
  have h₃ := hfiles .samples
  have h₄ := hfiles .labels
  rw [hparameters] at h₁
  rw [hparameters2] at h₂
  rw [hsamples] at h₃
  rw [hlabels] at h₄
  exact ⟨b, hb, h₁.1, h₁.2, h₂.1, h₃.1, h₄.1, h₄.2, htabs⟩

end NetImage
