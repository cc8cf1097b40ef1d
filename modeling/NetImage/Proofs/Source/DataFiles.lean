import NetImage.Model.Bundle
import NetImage.Proofs.Number.Decimal
import NetImage.Proofs.Source.Initializer

/-!
# NetImage.Proofs.Source.DataFiles

The two source files line by line. Each array has its own lines in either file, and the lines before
and behind those of the arrays begin no array and give no length of one.

* `DataFiles.writes_fixed`: everything but the arrays.
* `DataFiles.adds_dataVar`: the lines of one array.
* `DataFiles.surrounds_header`, `DataFiles.surrounds_source`: the lines of a file.
-/

namespace NetImage

/-- The macro for the length of a stream's array. -/
def Stream.lengthMacro : Stream → Bytes
  | .parameters => ascii "PARAMETERS_DATA_LEN"
  | .parameters2 => ascii "PARAMETERS2_DATA_LEN"
  | .samples => ascii "SAMPLES_DATA_LEN"
  | .model => ascii "MODEL_DATA_LEN"
  | .labels => ascii "LABELS_DATA_LEN"
  | .counters => ascii "COUNTERS_DATA_LEN"

/-- What the definition of an array begins with. -/
def arrayHead (name : Bytes) : Bytes := ascii "uint8_t _" ++ (name ++ [0x5b])

/-- What the definition of a macro with a value begins with. -/
def macroHead (name : Bytes) : Bytes := ascii "#define " ++ (name ++ [0x20])

/-- Does the line neither start with a tab nor define an array or the length of one? -/
def isOther (l : Bytes) : Bool :=
  l.head? != some 0x09 && !(ascii "uint8_t _").isPrefixOf l
    && Stream.all.all fun s => !(macroHead s.lengthMacro).isPrefixOf l

/-- The text consists of such lines. -/
def Apart (t : Bytes) : Prop := Written (fun l => isOther l = true) t

namespace DataFiles

open Fragment Sections

/-! ## Everything but the arrays -/

/-- The names of the constants, which no configuration changes. -/
def constantNames : List Bytes := (constants {}).map fun e => ascii e.1

/-- Does the line define none of the constants? -/
def isUnrelated (l : Bytes) : Bool := constantNames.all fun name => !(macroHead name).isPrefixOf l

/-- Is the line neither about arrays nor about constants? -/
def isFixed (l : Bytes) : Bool := isOther l && isUnrelated l

/-- The function writes lines of this kind. -/
def Writes (q : Bytes → Bool) (f : Sections → Sections) : Prop :=
  ∃ t, Adds f t ∧ ∀ p, Written (fun l => q l = true) (t p)

variable {q : Bytes → Bool}

theorem Writes.mono {q' : Bytes → Bool} {f : Sections → Sections} (hf : Writes q f)
    (h : ∀ l, q l = true → q' l = true) : Writes q' f := by
  obtain ⟨t, hft, ht⟩ := hf
  exact ⟨t, hft, fun p => (ht p).mono h⟩

theorem writes_id : Writes q fun s => s :=
  ⟨fun _ => [], fun _ _ => (List.append_nil _).symm, fun _ => written_nil⟩

theorem Writes.andThen {f g : Sections → Sections} (hf : Writes q f) (hg : Writes q g) :
    Writes q fun s => g (f s) := by
  obtain ⟨t, hft, ht⟩ := hf
  obtain ⟨u, hgu, hu⟩ := hg
  exact ⟨_, hft.andThen hgu, fun p => (ht p).append (hu p)⟩

theorem Writes.append {f : Sections → Sections} (hf : Writes q f) (p : Part) {x : Fragment}
    (h : Written (fun l => q l = true) x.rendered) : Writes q fun s => (f s).append p x := by
  refine hf.andThen (g := fun s => s.append p x) ⟨_, adds_append p x, ?_⟩
  intro part
  split
  · exact h
  · exact written_nil

theorem writes_foldl {α : Type} {f : Sections → α → Sections} {as : List α}
    (h : ∀ a ∈ as, Writes q fun s => f s a) : Writes q fun s => as.foldl f s := by
  induction as with
  | nil => exact writes_id
  | cons a as ih =>
    rw [List.forall_mem_cons] at h
    exact h.1.andThen (ih h.2)

theorem Writes.appendAll {f : Sections → Sections} (hf : Writes q f) (p : Part)
    {xs : List Fragment} (h : xs.all (fun x => isWritten q x.rendered) = true) :
    Writes q fun s => (f s).appendAll p xs := by
  refine hf.andThen (g := fun s => s.appendAll p xs) (writes_foldl ?_)
  intro x hx
  exact writes_id.append p (written_of_isWritten (List.all_eq_true.mp h x hx))

theorem writes_preamble : Writes isFixed preamble := by
  unfold preamble
  refine Writes.appendAll ?_ _ (by decide)
  refine Writes.appendAll ?_ _ (by decide)
  refine Writes.appendAll ?_ _ (by decide)
  refine Writes.appendAll ?_ _ (by decide)
  refine Writes.appendAll ?_ _ (by decide)
  exact writes_id.appendAll _ (by decide)

theorem writes_flags : Writes isFixed flags := by
  refine Writes.append (writes_foldl ?_) _ (written_of_isWritten (by decide))
  have h : ∀ e ∈ Flags.genericNames.zipIdx, isWritten isFixed
      (Fragment.define e.1 (some (intLit (Flags.genericBit e.2)))).rendered = true := by
    decide
  rintro ⟨name, i⟩ he
  exact writes_id.append .hFlags (written_of_isWritten (h (name, i) he))

theorem writes_ops : Writes isFixed ops := by
  unfold ops
  refine Writes.append ?_ _ (written_of_isWritten (by decide +kernel))
  refine Writes.append ?_ _ (written_of_isWritten (by decide +kernel))
  refine Writes.appendAll ?_ _ (by decide)
  refine Writes.append ?_ _ (written_of_isWritten (by decide))
  refine Writes.append ?_ _ (written_of_isWritten (by decide))
  refine writes_foldl ?_
  -- the table of the operators is fixed, so the lines of each entry can be looked at
  have hops : ∀ e ∈ OpType.entries, isWritten isFixed
      (Fragment.define e.2.name (some (intLit e.1.index))).rendered = true := by
    decide
  have hprotos : ∀ e ∈ OpType.entries, [funcDecl void (allocName e.2.name) (some opParams),
      funcDecl void (handleName e.2.name) (some opParams)].all
        (fun x => isWritten isFixed x.rendered) = true := by
    decide +kernel
  have hinPlace : ∀ e ∈ OpType.entries, isWritten isFixed (inPlace e.2.name).rendered = true := by
    decide +kernel
  rintro ⟨op, info⟩ he
  dsimp only
  by_cases hplace : info.inPlace = true
  · simp only [if_pos hplace]
    refine Writes.append (Writes.appendAll ?_ _ (hprotos (op, info) he)) _
      (written_of_isWritten (hinPlace (op, info) he))
    exact writes_id.append .hOps (written_of_isWritten (hops (op, info) he))
  · simp only [if_neg hplace]
    refine Writes.appendAll ?_ _ (hprotos (op, info) he)
    exact writes_id.append .hOps (written_of_isWritten (hops (op, info) he))

/-- May a macro of this name stand beside those for the lengths of arrays? -/
def isMacroName (name : Bytes) : Bool :=
  name.all (fun b => isInline b && b != 0x20) && Stream.all.all fun s => s.lengthMacro != name

theorem isInline_of_mem_decimal {n : Int} {b : UInt8} (h : b ∈ decimal n) : isInline b = true := by
  rcases mem_decimal h with h | rfl
  · simp only [isInline, Bool.and_eq_true, bne_iff_ne]
    exact ⟨⟨digit_ne h (by decide), digit_ne h (by decide)⟩, digit_ne h (by decide)⟩
  · decide

theorem inline_decimal (n : Int) : (decimal n).all isInline = true :=
  List.all_eq_true.mpr fun _ hb => isInline_of_mem_decimal hb

theorem rendered_define (name : Bytes) (n : Int) :
    (Fragment.define name (some (intLit n))).rendered = macroHead name ++ decimal n ++ [0x0a] := by
  simp only [Fragment.define, preprocessor, maybeSpace, spaced, separated, newline, word, intLit,
    List.filterMap, id, List.intersperse, rendered, renderedSeq, macroHead, List.append_assoc,
    List.append_nil]
  rfl

/-- A macro that is not the length of an array. -/
theorem apart_define {name : Bytes} (h : isMacroName name = true) (n : Int) :
    Apart (Fragment.define name (some (intLit n))).rendered := by
  obtain ⟨hbytes, hnames⟩ := Bool.and_eq_true_iff.mp h
  have hinline : (macroHead name ++ decimal n).all isInline = true := by
    have hname : name.all isInline = true :=
      List.all_eq_true.mpr fun b hb =>
        (Bool.and_eq_true_iff.mp (List.all_eq_true.mp hbytes b hb)).1
    simp only [macroHead, List.all_append, hname, inline_decimal]
    decide
  have hspace : 0x20 ∉ name := by
    intro hmem
    have := List.all_eq_true.mp hbytes _ hmem
    simp at this
  have hother : isOther (macroHead name ++ decimal n) = true := by
    refine Bool.and_eq_true_iff.mpr ⟨rfl, List.all_eq_true.mpr ?_⟩
    intro s hs
    rw [Bool.not_eq_true', ← Bool.not_eq_true, List.isPrefixOf_iff_prefix]
    intro hprefix
    rw [macroHead, macroHead, List.append_assoc, List.prefix_append_right_inj, List.append_assoc]
      at hprefix
    have hne := List.all_eq_true.mp hnames s hs
    rw [bne_iff_ne] at hne
    have hmacro : 0x20 ∉ s.lengthMacro := by cases s <;> decide
    exact hne (Bytes.eq_of_separated hmacro hspace hprefix)
  rw [rendered_define]
  exact written_line (feed_not_mem_of_inline hinline) hother (flat_of_inline hinline)

theorem writes_consts (c : Config) : Writes isOther (consts c) := by
  have hnames : ∀ name ∈ (constants c).map Prod.fst, isMacroName (ascii name) = true := by
    -- the names do not depend on the configuration
    show ∀ name ∈ (constants {}).map Prod.fst, isMacroName (ascii name) = true
    decide
  have hconsts : Apart newline.rendered := written_of_isWritten (by decide)
  unfold consts
  by_cases hprogress : c.withoutProgressEmbedding = true
  · simp only [if_pos hprogress]
    refine Writes.append (writes_foldl ?_) _ hconsts
    rintro ⟨name, value⟩ he
    exact writes_id.append .hConsts (apart_define (hnames name (List.mem_map_of_mem he)) value)
  · simp only [if_neg hprogress]
    refine Writes.appendAll (Writes.append (writes_foldl ?_) _ hconsts) _ (by decide)
    rintro ⟨name, value⟩ he
    exact writes_id.append .hConsts (apart_define (hnames name (List.mem_map_of_mem he)) value)

theorem writes_fixed (c : Config) : Writes isOther fun s => flags (ops (consts c (preamble s))) := by
  have hmono : ∀ l, isFixed l = true → isOther l = true :=
    fun l h => (Bool.and_eq_true_iff.mp h).1
  exact (((writes_preamble.mono hmono).andThen (writes_consts c)).andThen
    (writes_ops.mono hmono)).andThen (writes_flags.mono hmono)

/-! ## One array -/

/-- The name of a stream's array, without the underscore. -/
def arrayName (s : Stream) : Bytes := s.name ++ ascii "_data"

/-- The lines of an array in the header. -/
def headerLines (s : Stream) (data : ByteArray) : List Bytes :=
  [ascii "extern uint8_t *" ++ (arrayName s ++ [0x3b]),
   macroHead s.lengthMacro ++ decimal data.size, []]

/-- The lines of an array in the source. -/
def sourceLines (s : Stream) (data : ByteArray) : List Bytes :=
  ascii "#ifdef NEED_DATA_VARS" ::
  (ascii "#pragma DATA_SECTION(\"" ++ (memorySection (arrayName s) ++ ascii "\")")) ::
  (arrayHead (arrayName s) ++ (decimal data.size ++ ascii "] = \x7b")) ::
  (hexRows data.data.toList ++ ascii "\x7d;" ::
    [ascii "uint8_t *" ++ (arrayName s ++ (ascii " = _" ++ (arrayName s ++ [0x3b]))),
     ascii "#endif", []])

theorem ending_semicolon (s : Bytes) : ending (s ++ [0x3b]) = [0x0a] := by
  simp [ending, terminator]

theorem upperCase_arrayName (s : Stream) :
    upperCase (arrayName s) ++ ascii "_LEN" = s.lengthMacro := by
  cases s <;> decide

theorem rendered_pointer (name : Bytes) :
    (statements [some (extern_ (var uint8T (ptr (.text name)) none))]).rendered =
      ascii "extern uint8_t *" ++ (name ++ [0x3b]) ++ [0x0a] := by
  have hstatement : (extern_ (var uint8T (ptr (.text name)) none)).rendered =
      ascii "extern uint8_t *" ++ name ++ [0x3b] := by
    simp only [extern_, var, ptr, uint8T, word, rendered, renderedSeq, List.cons_append,
      List.nil_append, List.append_assoc, List.append_nil]
    rfl
  simp only [statements, List.filterMap, id, rendered, renderedStmts, hstatement, ending_semicolon]
  simp

theorem rendered_array (name : Bytes) (n : Int) (data : Bytes) :
    (statements
      [some (var uint8T (elem (.text (0x5f :: name)) (some (intLit n)))
        (some (block (some (.bytes data))))),
       some (var uint8T (ptr (.text name)) (some (.text (0x5f :: name))))]).rendered =
      (arrayHead name ++ (decimal n ++ ascii "] = \x7b")) ++ (0x0a :: (unlines (hexRows data) ++
        (ascii "\x7d;" ++ 0x0a ::
          (ascii "uint8_t *" ++ (name ++ (ascii " = _" ++ (name ++ [0x3b]))) ++ [0x0a])))) := by
  have harray : (var uint8T (elem (.text (0x5f :: name)) (some (intLit n)))
      (some (block (some (.bytes data))))).rendered =
      (arrayHead name ++ (decimal n ++ ascii "] = \x7b") ++ (0x0a :: (unlines (hexRows data) ++
        [0x7d]))) ++ [0x3b] := by
    simp only [var, elem, block, maybe, uint8T, word, intLit, Option.toList, rendered, renderedSeq,
      (rows_hexRows data).text, arrayHead, List.cons_append, List.nil_append, List.append_assoc,
      List.append_nil]
    rfl
  have hpointer : (var uint8T (ptr (.text name)) (some (.text (0x5f :: name)))).rendered =
      ascii "uint8_t *" ++ (name ++ (ascii " = _" ++ name)) ++ [0x3b] := by
    simp only [var, ptr, uint8T, word, rendered, renderedSeq, List.cons_append, List.nil_append,
      List.append_assoc, List.append_nil]
    rfl
  simp only [statements, List.filterMap, id, rendered, renderedStmts, harray, hpointer,
    ending_semicolon]
  simp only [List.append_assoc, List.cons_append, List.nil_append, List.append_nil]
  rfl

theorem rendered_pragma (m : Bytes) :
    (preprocessor (ascii "pragma")
        (some (call (word "DATA_SECTION") (some (doubleQuoted m))))).rendered =
      ascii "#pragma DATA_SECTION(\"" ++ (m ++ ascii "\")") ++ [0x0a] := by
  simp only [preprocessor, maybeSpace, call, paren, doubleQuoted, maybe, Option.toList, word, newline,
    rendered, renderedSeq, List.append_assoc, List.append_nil]
  rfl

theorem adds_dataVar (s : Stream) (data : ByteArray) :
    Adds (fun x => dataVar x ⟨arrayName s, data⟩) fun p =>
      if p = .hData then unlines (headerLines s data)
      else if p = .cData then unlines (sourceLines s data) else [] := by
  intro x p
  refine ((adds_appendAll .hData _).andThen (adds_appendAll .cData _) x p).trans ?_
  dsimp only
  congr 1
  by_cases hheader : p = .hData
  · subst hheader
    rw [if_pos rfl, if_neg (by decide), if_pos rfl, List.append_nil]
    simp only [List.flatMap_cons, List.flatMap_nil, rendered_define, rendered_pointer,
      upperCase_arrayName, unlines, headerLines]
    rfl
  · rw [if_neg hheader, if_neg hheader, List.nil_append]
    by_cases hsource : p = .cData
    · rw [if_pos hsource, if_pos hsource]
      simp only [List.flatMap_cons, List.flatMap_nil, List.flatMap_append, rendered_array,
        rendered_pragma, unlines, sourceLines, List.append_assoc, List.cons_append, List.nil_append,
        List.append_nil]
      rfl
    · rw [if_neg hsource, if_neg hsource]

/-- Lines and blocks without line breaks, none with a tab in front. -/
structure Plain (ls : List Bytes) : Prop where
  laid : Laid ls
  feeds : ∀ l ∈ ls, 0x0a ∉ l
  tabs : ∀ l ∈ ls, l.head? ≠ some 0x09

theorem plain_nil : Plain [] := ⟨.nil, by simp, by simp⟩

theorem Plain.line {l : Bytes} {ls : List Bytes} (h : Plain ls) (hl : l.all isInline = true)
    (htab : l.head? ≠ some 0x09) : Plain (l :: ls) :=
  ⟨.line (flat_of_inline hl) h.laid,
    List.forall_mem_cons.mpr ⟨feed_not_mem_of_inline hl, h.feeds⟩,
    List.forall_mem_cons.mpr ⟨htab, h.tabs⟩⟩

/-- A block whose first line is otherwise a plain one, closed by a brace and a semicolon. -/
theorem Plain.block {l : Bytes} {inner ls : List Bytes} (h : Plain ls)
    (hl : l.all isInline = true) (hne : l ≠ []) (htab : l.head? ≠ some 0x09) (hinner : Plain inner)
    (hflat : ∀ x ∈ inner, Flat x) :
    Plain ((l ++ [0x7b]) :: (inner ++ ascii "\x7d;" :: ls)) := by
  have hhead : (l ++ [0x7b]).head? = l.head? := List.head?_append_of_ne_nil _ hne
  refine ⟨.block List.getLast?_concat ?_ hflat rfl (by decide) h.laid, ?_, ?_⟩
  · rw [hhead]
    exact (flat_of_inline hl).closes
  · refine List.forall_mem_cons.mpr ⟨?_, List.forall_mem_append.mpr ⟨hinner.feeds, ?_⟩⟩
    · rw [List.mem_append, not_or]
      exact ⟨feed_not_mem_of_inline hl, by decide⟩
    · exact List.forall_mem_cons.mpr ⟨by decide, h.feeds⟩
  · refine List.forall_mem_cons.mpr ⟨?_, List.forall_mem_append.mpr ⟨hinner.tabs, ?_⟩⟩
    · rw [hhead]
      exact htab
    · exact List.forall_mem_cons.mpr ⟨by decide, h.tabs⟩

theorem inline_arrayName (s : Stream) : (arrayName s).all isInline = true := by
  cases s <;> decide

theorem inline_pointerDecl (s : Stream) :
    (ascii "extern uint8_t *" ++ (arrayName s ++ [0x3b])).all isInline = true := by
  simp only [List.all_append, inline_arrayName]
  decide

theorem inline_length (s : Stream) (n : Int) :
    (macroHead s.lengthMacro ++ decimal n).all isInline = true := by
  have hmacro : s.lengthMacro.all isInline = true := by cases s <;> decide
  simp only [macroHead, List.all_append, hmacro, inline_decimal]
  decide

theorem plain_headerLines (s : Stream) (data : ByteArray) : Plain (headerLines s data) :=
  ((plain_nil.line rfl (by simp)).line (inline_length s data.size) (fun h => by cases h)).line
    (inline_pointerDecl s) (fun h => by cases h)

/-- The lines of an array in the header are not indented. -/
theorem indentLines_headerLines (s : Stream) (data : ByteArray) :
    indentLines 0 (headerLines s data) = headerLines s data := by
  refine indentLines_zero_of_flat ?_
  simp only [headerLines, List.forall_mem_cons]
  exact ⟨flat_of_inline (inline_pointerDecl s), flat_of_inline (inline_length s data.size),
    flat_of_inline rfl, by simp⟩

theorem plain_hexRows (data : Bytes) : Plain (hexRows data) := by
  have h := rows_hexRows data
  have hplain : ∀ rows : List Bytes, (∀ row ∈ rows, row.all isInline = true) →
      (∀ row ∈ rows, row.head? = some 0x30) → Plain rows := by
    intro rows
    induction rows with
    | nil => exact fun _ _ => plain_nil
    | cons row rows ih =>
      intro hinline hhead
      rw [List.forall_mem_cons] at hinline hhead
      exact (ih hinline.2 hhead.2).line hinline.1 (by rw [hhead.1]; decide)
  exact hplain _ h.inline h.head?_row

theorem inline_pragma (s : Stream) : (ascii "#pragma DATA_SECTION(\"" ++
    (memorySection (arrayName s) ++ ascii "\")")).all isInline = true := by
  have hmemory : (memorySection (arrayName s)).all isInline = true := by cases s <;> decide
  simp only [List.all_append, hmemory]
  decide

theorem inline_pointer (s : Stream) : (ascii "uint8_t *" ++ (arrayName s ++ (ascii " = _" ++
    (arrayName s ++ [0x3b])))).all isInline = true := by
  simp only [List.all_append, inline_arrayName]
  decide

theorem inline_opening (s : Stream) (n : Int) :
    (arrayHead (arrayName s) ++ (decimal n ++ ascii "] = ")).all isInline = true := by
  simp only [arrayHead, List.all_append, inline_arrayName, inline_decimal]
  decide

theorem opening_eq (s : Stream) (n : Int) :
    arrayHead (arrayName s) ++ (decimal n ++ ascii "] = \x7b") =
      arrayHead (arrayName s) ++ (decimal n ++ ascii "] = ") ++ [0x7b] := by
  rw [List.append_assoc, List.append_assoc]
  rfl

theorem flat_hexRows (data : Bytes) : ∀ row ∈ hexRows data, Flat row :=
  fun row hrow => flat_of_inline ((rows_hexRows data).inline row hrow)

theorem plain_sourceLines (s : Stream) (data : ByteArray) : Plain (sourceLines s data) := by
  unfold sourceLines
  rw [opening_eq]
  refine Plain.line (Plain.line ?_ (inline_pragma s) (fun h => by cases h)) (by decide) (by decide)
  refine Plain.block ?_ (inline_opening s data.size) (fun h => by cases h) (fun h => by cases h)
    (plain_hexRows _) (flat_hexRows _)
  exact Plain.line (Plain.line (Plain.line plain_nil rfl (by simp)) (by decide) (by decide))
    (inline_pointer s) (fun h => by cases h)

/-- Only the rows of an array are indented. -/
theorem indentLines_sourceLines (s : Stream) (data : ByteArray) :
    indentLines 0 (sourceLines s data) =
      ascii "#ifdef NEED_DATA_VARS" ::
      (ascii "#pragma DATA_SECTION(\"" ++ (memorySection (arrayName s) ++ ascii "\")")) ::
      (arrayHead (arrayName s) ++ (decimal data.size ++ ascii "] = \x7b")) ::
      ((hexRows data.data.toList).map (indentLine 1) ++ ascii "\x7d;" ::
        [ascii "uint8_t *" ++ (arrayName s ++ (ascii " = _" ++ (arrayName s ++ [0x3b]))),
         ascii "#endif", []]) := by
  have hopens : (arrayHead (arrayName s) ++ (decimal data.size ++ ascii "] = \x7b")).getLast? =
      some 0x7b := by
    rw [opening_eq, List.getLast?_concat]
  have hbehind : ∀ l ∈ [ascii "uint8_t *" ++ (arrayName s ++ (ascii " = _" ++
      (arrayName s ++ [0x3b]))), ascii "#endif", []], Flat l := by
    simp only [List.forall_mem_cons]
    exact ⟨flat_of_inline (inline_pointer s), flat_of_inline (by decide), flat_of_inline rfl,
      by simp⟩
  unfold sourceLines
  rw [indentLines, depthAfter_flat (flat_of_inline (by decide)), indentLine_zero, indentLines,
    depthAfter_flat (flat_of_inline (inline_pragma s)), indentLine_zero,
    indentLines_block hopens (fun h => by cases h) (flat_hexRows _) rfl (by decide),
    indentLines_zero_of_flat hbehind]

/-! ## The files -/

/-- A line that defines neither an array nor the length of one. -/
structure Elsewhere (l : Bytes) : Prop where
  array : ∀ name, ¬arrayHead name <+: l
  length : ∀ s : Stream, ¬macroHead s.lengthMacro <+: l

theorem elsewhere_of_isOther {l : Bytes} (h : isOther l = true) : Elsewhere l := by
  simp only [isOther, Bool.and_eq_true, Bool.not_eq_true', ← Bool.not_eq_true,
    List.isPrefixOf_iff_prefix, List.all_eq_true] at h
  refine ⟨?_, ?_⟩
  · intro name hprefix
    exact h.1.2 ((List.prefix_append _ _).trans hprefix)
  · intro s
    exact h.2 s (by cases s <;> decide)

theorem elsewhere_tab (l : Bytes) : Elsewhere (0x09 :: l) := by
  refine ⟨?_, ?_⟩
  · rintro name ⟨t, ht⟩
    cases ht
  · rintro s ⟨t, ht⟩
    cases ht

theorem elsewhere_indented {ls : List Bytes} (hlaid : Laid ls) (h : ∀ l ∈ ls, isOther l = true) :
    ∀ l ∈ indentLines 0 ls, Elsewhere l := by
  intro l hl
  obtain ⟨l', hl', rfl | rfl⟩ := mem_indentLines hlaid hl
  · exact elsewhere_of_isOther (h l hl')
  · exact elsewhere_tab l'

theorem plain_append {xs ys : List Bytes} (hx : Plain xs) (hy : Plain ys) : Plain (xs ++ ys) :=
  ⟨hx.laid.append hy.laid, List.forall_mem_append.mpr ⟨hx.feeds, hy.feeds⟩,
    List.forall_mem_append.mpr ⟨hx.tabs, hy.tabs⟩⟩

theorem plain_of_isOther {ls : List Bytes} (hlaid : Laid ls)
    (h : ∀ l ∈ ls, 0x0a ∉ l ∧ isOther l = true) : Plain ls := by
  refine ⟨hlaid, fun l hl => (h l hl).1, ?_⟩
  intro l hl
  have := (h l hl).2
  simp only [isOther, Bool.and_eq_true, bne_iff_ne] at this
  exact this.1.1

theorem plain_flatMap {block : Stream → List Bytes} (h : ∀ s, Plain (block s))
    (order : List Stream) : Plain (order.flatMap block) ∧
      indentLines 0 (order.flatMap block) = order.flatMap fun s => indentLines 0 (block s) := by
  induction order with
  | nil => exact ⟨plain_nil, rfl⟩
  | cons s order ih =>
    rw [List.flatMap_cons, indentLines_append (h s).laid, ih.2]
    exact ⟨plain_append (h s) ih.1, rfl⟩

/-- The file has these lines for its arrays, with others before and behind them, and no tab is in front
of a line outside a block. -/
structure Surrounds (file : Bytes) (arrays : List Bytes) : Prop where
  lines : ∃ before after, Bytes.split 0x0a file = before ++ (arrays ++ after) ∧
    ∀ l ∈ before ++ after, Elsewhere l
  tabs : TabsInBlocks (Bytes.split 0x0a file)

theorem surrounds_indented {t u : Bytes} (ht : Apart t) (hu : Apart u) {block : Stream → List Bytes}
    (h : ∀ s, Plain (block s)) (order : List Stream) :
    Surrounds (indented (t ++ (order.flatMap (fun s => unlines (block s)) ++ u))).data.toList
      (order.flatMap fun s => indentLines 0 (block s)) := by
  obtain ⟨before, rfl, hbefore, hlaid⟩ := ht
  obtain ⟨after, rfl, hafter, hlaid'⟩ := hu
  obtain ⟨harrays, hindent⟩ := plain_flatMap h order
  have hplain := plain_append (plain_of_isOther hlaid hbefore)
    (plain_append harrays (plain_of_isOther hlaid' hafter))
  have htext : unlines before ++ (order.flatMap (fun s => unlines (block s)) ++ unlines after) =
      unlines (before ++ (order.flatMap block ++ after)) := by
    simp only [unlines, List.flatMap_append, List.flatMap_assoc]
  rw [htext]
  have hsplit := split_indented hplain.feeds
  refine ⟨⟨indentLines 0 before, indentLines 0 after ++ [[]], ?_, ?_⟩, ?_⟩
  · rw [hsplit, indentLines_append hlaid, indentLines_append harrays.laid, hindent]
    simp only [List.append_assoc]
  · simp only [List.forall_mem_append, List.forall_mem_singleton]
    exact ⟨elsewhere_indented hlaid fun l hl => (hbefore l hl).2,
      elsewhere_indented hlaid' fun l hl => (hafter l hl).2,
      elsewhere_of_isOther (by decide)⟩
  · have hlast : indentLines 0 (before ++ (order.flatMap block ++ after)) ++ [[]] =
        indentLines 0 (before ++ (order.flatMap block ++ after) ++ [[]]) := by
      rw [indentLines_append hplain.laid]
      rfl
    have hall := plain_append hplain (plain_nil.line (l := []) rfl (by simp))
    rw [hsplit, hlast]
    exact hall.laid.tabsInBlocks hall.tabs

theorem header_eq (s : Sections) :
    s.header = indented (([0, 1, 2, 3, 4, 5, 6, 7, 8, 9] ++ Part.hData :: [11]).flatMap s.text) :=
  s.header_eq_indented

theorem source_eq (s : Sections) :
    s.source = indented (([12, 13, 14, 15, 16, 17, 18] ++ Part.cData :: [20]).flatMap s.text) :=
  s.source_eq_indented

/-- What is written before and behind one section of some. -/
theorem exists_around {f : Sections → Sections} (hf : Writes isOther f) {s : Sections} {u : Part → Bytes}
    (hs : ∀ p, s.text p = (f .empty).text p ++ u p) (before after : List Part) (p : Part)
    (hu : ∀ q ∈ before ++ after, u q = []) :
    ∃ t v, Apart t ∧ Apart v ∧ (before ++ p :: after).flatMap s.text = t ++ (u p ++ v) := by
  obtain ⟨t, hft, ht⟩ := hf
  have htext : ∀ q, s.text q = t q ++ u q := by
    intro q
    rw [hs, hft, text_empty, List.nil_append]
  have hothers : ∀ qs : List Part, (∀ q ∈ qs, u q = []) → qs.flatMap s.text = qs.flatMap t := by
    intro qs hqs
    refine List.flatMap_congr ?_
    intro q hq
    rw [htext, hqs q hq, List.append_nil]
  rw [List.forall_mem_append] at hu
  refine ⟨before.flatMap t ++ t p, after.flatMap t,
    (Written.flatMap fun q _ => ht q).append (ht p), Written.flatMap fun q _ => ht q, ?_⟩
  rw [List.flatMap_append, List.flatMap_cons, hothers before hu.1, hothers after hu.2, htext]
  simp only [List.append_assoc]

variable (c : Config) (data : Stream → ByteArray) (order : List Stream)

theorem text_sections (p : Part) :
    (sections c (order.map fun s => ⟨arrayName s, data s⟩)).text p =
      (flags (ops (consts c (preamble .empty)))).text p ++ order.flatMap fun s =>
        if p = .hData then unlines (headerLines s (data s))
        else if p = .cData then unlines (sourceLines s (data s)) else [] := by
  rw [sections, List.foldl_map]
  exact adds_foldl (fun s => adds_dataVar s (data s)) order _ p

theorem surrounds_header :
    Surrounds (sections c (order.map fun s => ⟨arrayName s, data s⟩)).header.data.toList
      (order.flatMap fun s => indentLines 0 (headerLines s (data s))) := by
  have hne : ∀ q ∈ ([0, 1, 2, 3, 4, 5, 6, 7, 8, 9] ++ [11] : List Part),
      q ≠ .hData ∧ q ≠ .cData := by decide
  obtain ⟨t, v, ht, hv, htext⟩ := exists_around (writes_fixed c) (text_sections c data order)
    [0, 1, 2, 3, 4, 5, 6, 7, 8, 9] [11] .hData fun q hq => by simp [hne q hq]
  rw [header_eq, htext]
  exact surrounds_indented ht hv (fun s => plain_headerLines s (data s)) order

theorem surrounds_source :
    Surrounds (sections c (order.map fun s => ⟨arrayName s, data s⟩)).source.data.toList
      (order.flatMap fun s => indentLines 0 (sourceLines s (data s))) := by
  have hne : ∀ q ∈ ([12, 13, 14, 15, 16, 17, 18] ++ [20] : List Part),
      q ≠ .hData ∧ q ≠ .cData := by decide
  obtain ⟨t, v, ht, hv, htext⟩ := exists_around (writes_fixed c) (text_sections c data order)
    [12, 13, 14, 15, 16, 17, 18] [20] .cData fun q hq => by simp [hne q hq]
  rw [source_eq, htext]
  exact surrounds_indented ht hv (fun s => plain_sourceLines s (data s)) order

end DataFiles
end NetImage
