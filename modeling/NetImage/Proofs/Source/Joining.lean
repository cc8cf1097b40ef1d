import NetImage.Proofs.Source.Indentation

/-!
# NetImage.Proofs.Source.Joining

Joining only indents. Whatever the sections hold, the lines of a joined text are those of its sections
behind one another, each behind as many tabs as braces are open there.

* `depthBehind`: the braces open behind some lines.
* `Indents`: a text and its indented form, line by line.
* `Sections.joined_indents`: the header and the source of any sections.
-/

namespace NetImage

/-- How many braces are open behind these lines of a text. -/
def depthBehind (ls : List Bytes) : Nat := ls.foldl depthAfter 0

/-- The second text is the first one with its lines indented: a line that is neither empty nor for the
preprocessor stands behind a tab for each brace that is open, and nothing else is inserted. -/
structure Indents (text out : Bytes) : Prop where
  line : ∀ i : Nat, (Bytes.split 0x0a out)[i]? =
    (Bytes.split 0x0a text)[i]?.map (indentLine (depthBehind ((Bytes.split 0x0a text).take i)))
  bare : out.filter (· != 0x09) = text.filter (· != 0x09)

theorem indentLines_foldl (depth : Nat) (xs ys : List Bytes) :
    indentLines depth (xs ++ ys) =
      indentLines depth xs ++ indentLines (xs.foldl depthAfter depth) ys := by
  induction xs generalizing depth with
  | nil => rfl
  | cons x xs ih => rw [List.cons_append, indentLines, ih, indentLines, List.foldl_cons]; rfl

theorem getElem?_indentLines (depth : Nat) (ls : List Bytes) (i : Nat) :
    (indentLines depth ls)[i]? =
      ls[i]?.map (indentLine ((ls.take i).foldl depthAfter depth)) := by
  induction ls generalizing depth i with
  | nil => rfl
  | cons l ls ih =>
    cases i with
    | zero => rfl
    | succ i => exact ih (depthAfter depth l) i

theorem filter_indentLine (depth : Nat) (l : Bytes) :
    (indentLine depth l).filter (· != 0x09) = l.filter (· != 0x09) := by
  obtain ⟨n, hn⟩ := exists_indentLine depth l
  rw [hn, List.filter_append, List.filter_replicate]
  rfl

theorem filter_unlines_indentLines (depth : Nat) (ls : List Bytes) :
    (unlines (indentLines depth ls)).filter (· != 0x09) = (unlines ls).filter (· != 0x09) := by
  induction ls generalizing depth with
  | nil => rfl
  | cons l ls ih =>
    simp only [unlines, indentLines, List.flatMap_cons, List.filter_append, filter_indentLine] at ih ⊢
    rw [ih]

/-- A text is its ended lines and one that is not. -/
theorem exists_lines (text : Bytes) : ∃ ls last, (∀ l ∈ ls ++ [last], 0x0a ∉ l) ∧
    text = unlines ls ++ last ∧ Bytes.split 0x0a text = ls ++ [last] := by
  obtain ⟨ls, last, hsplit⟩ : ∃ ls last, Bytes.split 0x0a text = ls ++ [last] :=
    ⟨_, _, (List.dropLast_append_getLast (Bytes.split_ne_nil 0x0a text)).symm⟩
  refine ⟨ls, last, ?_, ?_, hsplit⟩
  · rw [← hsplit]
    exact fun l hl => Bytes.not_mem_of_mem_split hl
  · rw [unlines, ← Bytes.join_concat, ← hsplit, Bytes.join_split]

namespace Sections

theorem toList_indented_open {ls : List Bytes} {last : Bytes} (h : ∀ l ∈ ls ++ [last], 0x0a ∉ l) :
    (indented (unlines ls ++ last)).data.toList =
      unlines (indentLines 0 ls) ++ indentLine (depthBehind ls) last := by
  rw [List.forall_mem_append, List.forall_mem_singleton] at h
  obtain ⟨w, hlines, hw⟩ := foldl_step_lines h.1 0 .empty
  obtain ⟨w', hopen, hw'⟩ := foldl_step_begun h.2 (depthBehind ls) w
  rw [indented, List.foldl_append, hlines, ← depthBehind, hopen, hw', hw]
  rfl

theorem indents_indented (text : Bytes) : Indents text (indented text).data.toList := by
  obtain ⟨ls, last, hfeeds, htext, hsplit⟩ := exists_lines text
  -- only the last line has no end, so the indented lines can be told apart again
  have hjoin : unlines (indentLines 0 ls) ++ indentLine (depthBehind ls) last =
      Bytes.join [0x0a] (indentLines 0 (ls ++ [last])) := by
    rw [indentLines_foldl, indentLines, indentLines, Bytes.join_concat]
    rfl
  have hout : Bytes.split 0x0a (indented text).data.toList = indentLines 0 (ls ++ [last]) := by
    rw [htext, toList_indented_open hfeeds, hjoin,
      Bytes.split_join (feed_not_mem_indentLines hfeeds 0)]
    simp [indentLines_foldl, indentLines]
  refine ⟨fun i => ?_, ?_⟩
  · rw [hout, hsplit, getElem?_indentLines]
    rfl
  · rw [htext, toList_indented_open hfeeds, List.filter_append, List.filter_append,
      filter_unlines_indentLines, filter_indentLine]

/-- **Joining only indents.** The header is what its sections hold one behind the other, with tabs put
in front of its lines and nowhere else; so is the source. How a text is spread over sections makes no
difference. -/
theorem joined_indents (s : Sections) :
    Indents s.headerText s.header.data.toList ∧ Indents s.sourceText s.source.data.toList ∧
      ∀ s' : Sections, (s.headerText = s'.headerText → s.header = s'.header) ∧
        (s.sourceText = s'.sourceText → s.source = s'.source) := by
  simp only [header_eq_indented, source_eq_indented]
  exact ⟨indents_indented _, indents_indented _,
    fun s' => ⟨congrArg indented, congrArg indented⟩⟩

/-- A block with a line for the preprocessor, an empty line and one brace too many, spread over two
sections. -/
def bracedSections : Sections :=
  (empty.append .hConsts (.word "f \x7b\n#x\n\na;")).append .hOps (.word "\n\x7d\n\x7d\x7b\nb")

theorem bracedSections_joined :
    bracedSections.header.data.toList = ascii "f \x7b\n#x\n\n\ta;\n\x7d\n\x7d\x7b\n\tb" ∧
    Indents (ascii "f \x7b\n#x\n\na;\n\x7d\n\x7d\x7b\nb") bracedSections.header.data.toList ∧
    bracedSections.header = (empty.append .hData (.text bracedSections.headerText)).header := by
  obtain ⟨hheader, -, hspread⟩ := joined_indents bracedSections
  have htext : bracedSections.headerText = ascii "f \x7b\n#x\n\na;\n\x7d\n\x7d\x7b\nb" := rfl
  rw [htext] at hheader
  exact ⟨rfl, hheader, (hspread _).1 rfl⟩

end Sections
end NetImage
