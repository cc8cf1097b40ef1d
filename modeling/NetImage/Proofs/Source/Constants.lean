import NetImage.Proofs.Source.Companion

/-!
# NetImage.Proofs.Source.Constants

The constants that a header shares with the runtime. Each has one line of its own, with the value that
the configuration gives, and no other line begins a macro of its name.

* `DataFiles.exists_header`: the header around the lines of the constants.
* `DataFiles.definesMacro_constant`: a constant in the header.
* `Bundle.definesMacro_of_ofPlan`: a constant of a plan.
-/

namespace NetImage
namespace DataFiles

open Fragment Sections

theorem macroHead_prefix_iff {a b : Bytes} (ha : 0x20 ∉ a) (hb : 0x20 ∉ b) (rest : Bytes) :
    macroHead a <+: macroHead b ++ rest ↔ a = b := by
  rw [macroHead, macroHead, List.append_assoc, List.prefix_append_right_inj, List.append_assoc]
  refine ⟨Bytes.eq_of_separated ha hb, ?_⟩
  rintro rfl
  exact ⟨rest, List.append_assoc a [0x20] rest⟩

theorem constantNames_eq (c : Config) : (constants c).map (fun e => ascii e.1) = constantNames := rfl

theorem space_not_mem_constantNames : ∀ name ∈ constantNames, 0x20 ∉ name := by decide

theorem isUnrelated_iff {l : Bytes} :
    isUnrelated l = true ↔ ∀ name ∈ constantNames, ¬macroHead name <+: l := by
  simp only [isUnrelated, List.all_eq_true, Bool.not_eq_true', ← Bool.not_eq_true,
    List.isPrefixOf_iff_prefix]

/-- A text without constants. -/
def Unrelated (t : Bytes) : Prop := Written (fun l => isUnrelated l = true) t

theorem unrelated_of_isFixed {l : Bytes} (h : isFixed l = true) : isUnrelated l = true :=
  (Bool.and_eq_true_iff.mp h).2

/-! ## The lines of the constants -/

/-- The lines of the constants. -/
def constantLines (c : Config) : List Bytes :=
  (constants c).map (fun e => macroHead (ascii e.1) ++ decimal e.2) ++ [[]]

theorem inline_of_mem_constantLines {c : Config} {l : Bytes} (h : l ∈ constantLines c) :
    l.all isInline = true := by
  have hnames : ∀ name ∈ constantNames, (macroHead name).all isInline = true := by decide
  rcases List.mem_append.mp h with h | h
  · obtain ⟨e, he, rfl⟩ := List.mem_map.mp h
    rw [List.all_append, inline_decimal, hnames _ (List.mem_map_of_mem (f := fun e => ascii e.1) he)]
    rfl
  · cases List.mem_singleton.mp h
    rfl

/-- What is written for the constants, and whether progress is embedded. -/
def constantsText (c : Config) (p : Part) : Bytes :=
  if p = .hConsts then unlines (constantLines c)
  else if p = .hProgress ∧ c.withoutProgressEmbedding = false then
    ascii "#define WITH_PROGRESS_EMBEDDING\n\n"
  else []

theorem unrelated_constantsText (c : Config) {p : Part} (hp : p ≠ .hConsts) :
    Unrelated (constantsText c p) := by
  rw [constantsText, if_neg hp]
  split
  · exact written_of_isWritten (by decide)
  · exact written_nil

theorem adds_constantLines (c : Config) : Adds
    (fun s => ((constants c).foldl
      (fun s (name, value) => define s .hConsts (ascii name) value) s).append .hConsts newline)
    fun p => if p = .hConsts then unlines (constantLines c) else [] := by
  intro s p
  refine ((adds_foldl (fun e => adds_append .hConsts _) _).andThen (adds_append .hConsts _)
    s p).trans ?_
  dsimp only
  congr 1
  split
  · simp only [rendered_define, constantLines, unlines, List.flatMap_append, List.flatMap_map]
    rfl
  · simp

theorem adds_consts (c : Config) : Adds (consts c) (constantsText c) := by
  intro s p
  unfold consts
  by_cases h : c.withoutProgressEmbedding = true
  · simp only [if_pos h]
    refine (adds_constantLines c s p).trans ?_
    simp [constantsText, h]
  · have hprogress : [Fragment.define (ascii "WITH_PROGRESS_EMBEDDING") none,
        newline].flatMap rendered = ascii "#define WITH_PROGRESS_EMBEDDING\n\n" := by
      decide
    simp only [if_neg h]
    refine ((adds_constantLines c).andThen (adds_appendAll .hProgress _) s p).trans ?_
    rw [hprogress]
    by_cases hp : p = .hConsts
    · simp [constantsText, hp, show Part.hConsts ≠ Part.hProgress by decide]
    · simp [constantsText, hp, h]

/-! ## The header -/

variable (c : Config) (data : Stream → ByteArray) (order : List Stream)

theorem unrelated_headerLines (s : Stream) (data : ByteArray) :
    Unrelated (unlines (headerLines s data)) := by
  have hplain := plain_headerLines s data
  refine ⟨headerLines s data, rfl, fun l hl => ⟨hplain.feeds l hl, ?_⟩, hplain.laid⟩
  refine isUnrelated_iff.mpr fun name hname => ?_
  rw [headerLines, List.mem_cons, List.mem_cons, List.mem_singleton] at hl
  rcases hl with rfl | rfl | rfl
  · rintro ⟨t, ht⟩
    cases ht
  · have hspace : 0x20 ∉ s.lengthMacro := by cases s <;> decide
    have hne : s.lengthMacro ∉ constantNames := by cases s <;> decide
    rw [macroHead_prefix_iff (space_not_mem_constantNames name hname) hspace]
    rintro rfl
    exact hne hname
  · rintro ⟨t, ht⟩
    cases ht

theorem exists_header : ∃ t u, Unrelated t ∧ Unrelated u ∧
    (sections c (order.map fun s => ⟨arrayName s, data s⟩)).header =
      indented (t ++ (unlines (constantLines c) ++ u)) := by
  obtain ⟨front, hfront, hfront'⟩ := writes_preamble.mono fun _ => unrelated_of_isFixed
  obtain ⟨tables, htables, htables'⟩ := writes_ops.mono fun _ => unrelated_of_isFixed
  obtain ⟨bits, hbits, hbits'⟩ := writes_flags.mono fun _ => unrelated_of_isFixed
  have htext : ∀ p : Part, (sections c (order.map fun s => ⟨arrayName s, data s⟩)).text p =
      front p ++ (constantsText c p ++ (tables p ++ (bits p ++ order.flatMap fun s =>
        if p = .hData then unlines (headerLines s (data s))
        else if p = .cData then unlines (sourceLines s (data s)) else []))) := by
    intro p
    rw [text_sections, hbits, htables, adds_consts, hfront, text_empty]
    simp only [List.append_assoc, List.nil_append]
  have hbehind : ∀ p : Part, p ≠ .cData → Unrelated (tables p ++ (bits p ++ order.flatMap fun s =>
      if p = .hData then unlines (headerLines s (data s))
      else if p = .cData then unlines (sourceLines s (data s)) else [])) := by
    intro p hp
    refine (htables' p).append ((hbits' p).append (Written.flatMap fun s _ => ?_))
    simp only [if_neg hp]
    split
    · exact unrelated_headerLines s (data s)
    · exact written_nil
  have hothers : ∀ ps : List Part, (∀ p ∈ ps, p ≠ .cData ∧ p ≠ .hConsts) →
      Unrelated (ps.flatMap (sections c (order.map fun s => ⟨arrayName s, data s⟩)).text) := by
    intro ps hps
    refine Written.flatMap fun p hp => ?_
    rw [htext]
    exact (hfront' p).append ((unrelated_constantsText c (hps p hp).2).append
      (hbehind p (hps p hp).1))
  refine ⟨_, _, (hothers [0, 1, 2, 3, 4] (by decide)).append (hfront' .hConsts),
    (hbehind .hConsts (by decide)).append (hothers [6, 7, 8, 9, 10, 11] (by decide)), ?_⟩
  rw [header_eq]
  show indented (([0, 1, 2, 3, 4] ++ Part.hConsts :: [6, 7, 8, 9, 10, 11]).flatMap _) = _
  rw [List.flatMap_append, List.flatMap_cons (x := Part.hConsts), htext .hConsts]
  simp only [List.append_assoc]
  rfl

/-- The lines of a file around some that no brace touches. -/
theorem split_around {P : Bytes → Prop} {t u : Bytes} (ht : Written P t) (hu : Written P u)
    {ls : List Bytes} (hls : ∀ l ∈ ls, l.all isInline = true) :
    ∃ before after, Bytes.split 0x0a (indented (t ++ (unlines ls ++ u))).data.toList =
        before ++ (ls ++ (after ++ [[]])) ∧
      ∀ l ∈ before ++ after, ∃ l', P l' ∧ (l = l' ∨ l = 0x09 :: l') := by
  obtain ⟨before, rfl, hbefore, hlaid⟩ := ht
  obtain ⟨after, rfl, hafter, hlaid'⟩ := hu
  have hflat : ∀ l ∈ ls, Flat l := fun l hl => flat_of_inline (hls l hl)
  have hmid : Laid ls := by
    clear hls
    induction ls with
    | nil => exact .nil
    | cons l ls ih =>
      rw [List.forall_mem_cons] at hflat
      exact .line hflat.1 (ih hflat.2)
  have hfeeds : ∀ l ∈ before ++ (ls ++ after), 0x0a ∉ l := by
    simp only [List.forall_mem_append]
    exact ⟨fun l hl => (hbefore l hl).1, fun l hl => feed_not_mem_of_inline (hls l hl),
      fun l hl => (hafter l hl).1⟩
  have htext : unlines before ++ (unlines ls ++ unlines after) = unlines (before ++ (ls ++ after)) := by
    simp only [unlines, List.flatMap_append]
  refine ⟨indentLines 0 before, indentLines 0 after, ?_, ?_⟩
  · rw [htext, split_indented hfeeds, indentLines_append hlaid, indentLines_append hmid,
      indentLines_zero_of_flat hflat]
    simp only [List.append_assoc]
  · simp only [List.forall_mem_append]
    refine ⟨fun l hl => ?_, fun l hl => ?_⟩
    · obtain ⟨l', hl', h⟩ := mem_indentLines hlaid hl
      exact ⟨l', (hbefore l' hl').2, h⟩
    · obtain ⟨l', hl', h⟩ := mem_indentLines hlaid' hl
      exact ⟨l', (hafter l' hl').2, h⟩

theorem not_prefix_of_isUnrelated {name l l' : Bytes} (hname : name ∈ constantNames)
    (h : isUnrelated l' = true) (hl : l = l' ∨ l = 0x09 :: l') : ¬macroHead name <+: l := by
  rcases hl with rfl | rfl
  · exact isUnrelated_iff.mp h name hname
  · rintro ⟨t, ht⟩
    cases ht

theorem nodup_constantNames : constantNames.Nodup := by decide

theorem count_constantLines {name : Bytes} (hname : name ∈ constantNames) :
    (constantLines c).countP (fun l => (macroHead name).isPrefixOf l) = 1 := by
  have hspace := space_not_mem_constantNames
  have hpred : ∀ e ∈ constants c,
      (macroHead name).isPrefixOf (macroHead (ascii e.1) ++ decimal e.2) = (name == ascii e.1) := by
    intro e he
    have hmem : ascii e.1 ∈ constantNames := List.mem_map_of_mem (f := fun e => ascii e.1) he
    rw [Bool.eq_iff_iff, List.isPrefixOf_iff_prefix,
      macroHead_prefix_iff (hspace name hname) (hspace _ hmem), beq_iff_eq]
  calc (constantLines c).countP (fun l => (macroHead name).isPrefixOf l)
      = (constants c).countP (fun e => name == ascii e.1) := by
        rw [constantLines, List.countP_append, List.countP_map]
        exact List.countP_congr fun e he => by
          simp only [Function.comp_apply, hpred e he]
    _ = constantNames.count name := by
        rw [← constantNames_eq c, List.count, List.countP_map]
        exact List.countP_congr fun e _ => by
          simp only [Function.comp_apply, beq_iff_eq]
          exact eq_comm
    _ = 1 := List.count_eq_one_of_mem nodup_constantNames hname

theorem definesMacro_constant {name : String} {n : Nat} (h : (name, (n : Int)) ∈ constants c) :
    DefinesMacro (sections c (order.map fun s => ⟨arrayName s, data s⟩)).header.data.toList
      (ascii name) n := by
  have hname : ascii name ∈ constantNames := List.mem_map_of_mem (f := fun e => ascii e.1) h
  obtain ⟨t, u, ht, hu, hheader⟩ := exists_header c data order
  obtain ⟨before, after, hsplit, hothers⟩ :=
    split_around ht hu fun l hl => inline_of_mem_constantLines hl
  have hnone : ∀ ls : List Bytes, (∀ l ∈ ls, l ∈ before ++ after) →
      ls.countP (fun l => (macroHead (ascii name)).isPrefixOf l) = 0 := by
    intro ls hls
    rw [List.countP_eq_zero]
    intro l hl
    obtain ⟨l', hl', heq⟩ := hothers l (hls l hl)
    rw [List.isPrefixOf_iff_prefix]
    exact not_prefix_of_isUnrelated hname hl' heq
  rw [hheader]
  refine ⟨?_, ?_⟩
  · rw [hsplit, List.countP_append, List.countP_append, List.countP_append,
      hnone before fun l hl => List.mem_append_left _ hl,
      hnone after fun l hl => List.mem_append_right _ hl, count_constantLines c hname]
    rfl
  · rw [hsplit]
    refine List.mem_append_right _ (List.mem_append_left _ (List.mem_append_left _ ?_))
    exact List.mem_map_of_mem (f := fun e => macroHead (ascii e.1) ++ decimal e.2) h

end DataFiles

/-- The header of a bundle has the constants of its plan. -/
theorem Bundle.definesMacro_of_ofPlan {p : Plan} {b : Bundle} (h : ofPlan p = .ok b) {name : String}
    {n : Nat} (hmem : (name, (n : Int)) ∈ DataFiles.constants p.config) :
    DefinesMacro b.header.data.toList (ascii name) n := by
  obtain ⟨hheader, -⟩ := Bundle.files_of_ofPlan h
  have hdefines := DataFiles.definesMacro_constant p.config (b.array p) Stream.arrays hmem
  rw [← Bundle.dataVars_eq, ← hheader] at hdefines
  exact hdefines

end NetImage
