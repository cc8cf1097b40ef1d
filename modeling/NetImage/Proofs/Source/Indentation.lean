import NetImage.Proofs.Source.Rendering
import NetImage.Proofs.Text.Pieces

/-!
# NetImage.Proofs.Source.Indentation

Indentation line by line. A text that consists of single lines and of blocks that are not nested is
indented inside the blocks and nowhere else, and behind each block as if there had been none.

* `Sections.toList_indented`: joining indents each line by the braces open before it.
* `Laid`: lines and blocks.
* `indentLines_append`: what stands behind such lines does not depend on them.
* `Laid.tabsInBlocks`: a line with a tab in front is inside a block.
-/

namespace NetImage

/-- The lines one after the other, each with a line break. -/
def unlines (ls : List Bytes) : Bytes := ls.flatMap (· ++ [0x0a])

/-- How many braces are open when a line is begun, after the brace that it may close. -/
def depthAt (depth : Nat) (l : Bytes) : Nat := if l.head? = some 0x7d then depth - 1 else depth

/-- How many braces are open behind a line. -/
def depthAfter (depth : Nat) (l : Bytes) : Nat :=
  if l.getLast? = some 0x7b then depthAt depth l + 1 else depthAt depth l

/-- A line behind its tabs. Nothing is put before the end of a line or before a number sign. -/
def indentLine (depth : Nat) (l : Bytes) : Bytes :=
  match l with
  | [] => []
  | b :: rest =>
    if b = 0x23 then b :: rest else List.replicate (depthAt depth (b :: rest)) 0x09 ++ b :: rest

def indentLines : Nat → List Bytes → List Bytes
  | _, [] => []
  | depth, l :: ls => indentLine depth l :: indentLines (depthAfter depth l) ls

/-- Indenting a line puts tabs in front of it. -/
theorem exists_indentLine (depth : Nat) (l : Bytes) :
    ∃ n, indentLine depth l = List.replicate n 0x09 ++ l := by
  cases l with
  | nil => exact ⟨0, rfl⟩
  | cons b rest =>
    simp only [indentLine]
    split
    · exact ⟨0, rfl⟩
    · exact ⟨_, rfl⟩

theorem feed_not_mem_indentLine {l : Bytes} (h : 0x0a ∉ l) (depth : Nat) :
    0x0a ∉ indentLine depth l := by
  obtain ⟨n, hn⟩ := exists_indentLine depth l
  rw [hn, List.mem_append, List.mem_replicate]
  exact fun hmem => hmem.elim (fun htab => absurd htab.2 (by decide)) h

theorem feed_not_mem_indentLines {ls : List Bytes} (h : ∀ l ∈ ls, 0x0a ∉ l) (depth : Nat) :
    ∀ l ∈ indentLines depth ls, 0x0a ∉ l := by
  induction ls generalizing depth with
  | nil => exact h
  | cons l ls ih =>
    rw [List.forall_mem_cons] at h
    exact List.forall_mem_cons.mpr ⟨feed_not_mem_indentLine h.1 depth, ih h.2 _⟩

namespace Sections

theorem toList_tabs (n : Nat) (buffer : ByteArray) :
    (tabs n buffer).data.toList = buffer.data.toList ++ List.replicate n 0x09 := by
  induction n generalizing buffer with
  | zero => simp [tabs]
  | succ n ih => simp [tabs, ih, ByteArray.data_push, List.replicate_succ]

/-- The bytes of a line behind the first are only copied. -/
theorem foldl_step_rest {rest : Bytes} (hrest : 0x0a ∉ rest) {j : Join} (hj : j.previous ≠ 0x0a) :
    rest.foldl Join.step j =
      ⟨rest.getLast?.getD j.previous, j.depth, extend j.written rest⟩ := by
  induction rest generalizing j with
  | nil => rfl
  | cons b rest ih =>
    rw [List.mem_cons, not_or] at hrest
    obtain ⟨hb, hrest⟩ := hrest
    have hstep : j.step b = ⟨b, j.depth, j.written.push b⟩ := by
      rw [Join.step, if_neg (Ne.symm hb), if_neg hj]
    rw [List.foldl_cons, hstep, ih hrest (Ne.symm hb)]
    cases hlast : rest.getLast? with
    | none =>
      obtain rfl := List.getLast?_eq_none_iff.mp hlast
      rfl
    | some c => simp [List.getLast?_cons, hlast]

/-- A line without its end. -/
theorem foldl_step_begun {l : Bytes} (hl : 0x0a ∉ l) (depth : Nat) (w : ByteArray) :
    ∃ w', l.foldl Join.step ⟨0x0a, depth, w⟩ = ⟨l.getLast?.getD 0x0a, depthAt depth l, w'⟩ ∧
      w'.data.toList = w.data.toList ++ indentLine depth l := by
  cases l with
  | nil => exact ⟨w, rfl, by simp [indentLine]⟩
  | cons b rest =>
    rw [List.mem_cons, not_or] at hl
    obtain ⟨hb, hrest⟩ := hl
    let first : Join := ⟨b, depthAt depth (b :: rest),
      (if b = 0x23 then w else tabs (depthAt depth (b :: rest)) w).push b⟩
    have hfirst : Join.step ⟨0x0a, depth, w⟩ b = first := by
      simp only [Join.step, if_neg (Ne.symm hb), if_true, first, depthAt, List.head?_cons,
        Option.some.injEq]
    refine ⟨extend first.written rest, ?_, ?_⟩
    · rw [List.foldl_cons, hfirst, foldl_step_rest hrest (Ne.symm hb), List.getLast?_cons]
      rfl
    · simp only [toList_extend, ByteArray.data_push, Array.toList_push, first, indentLine]
      split
      · simp
      · simp [toList_tabs]

/-- One line further. -/
theorem foldl_step_line {l : Bytes} (hl : 0x0a ∉ l) (depth : Nat) (w : ByteArray) :
    ∃ w', (l ++ [0x0a]).foldl Join.step ⟨0x0a, depth, w⟩ = ⟨0x0a, depthAfter depth l, w'⟩ ∧
      w'.data.toList = w.data.toList ++ (indentLine depth l ++ [0x0a]) := by
  obtain ⟨w', hbegun, hw'⟩ := foldl_step_begun hl depth w
  refine ⟨w'.push 0x0a, ?_, by simp [ByteArray.data_push, hw']⟩
  rw [List.foldl_append, hbegun]
  cases hlast : l.getLast? with
  | none => simp [Join.step, depthAfter, hlast]
  | some b => simp [Join.step, depthAfter, hlast]

theorem foldl_step_lines {ls : List Bytes} (h : ∀ l ∈ ls, 0x0a ∉ l) (depth : Nat) (w : ByteArray) :
    ∃ w', (unlines ls).foldl Join.step ⟨0x0a, depth, w⟩ = ⟨0x0a, ls.foldl depthAfter depth, w'⟩ ∧
      w'.data.toList = w.data.toList ++ unlines (indentLines depth ls) := by
  induction ls generalizing depth w with
  | nil => exact ⟨w, rfl, by simp [unlines, indentLines]⟩
  | cons l ls ih =>
    rw [List.forall_mem_cons] at h
    obtain ⟨w₁, hline, hw₁⟩ := foldl_step_line h.1 depth w
    obtain ⟨w₂, hlines, hw₂⟩ := ih h.2 (depthAfter depth l) w₁
    refine ⟨w₂, ?_, by rw [hw₂, hw₁]; simp [unlines, indentLines]⟩
    rw [unlines, List.flatMap_cons, List.foldl_append, hline, ← unlines, hlines, List.foldl_cons]

theorem toList_indented {ls : List Bytes} (h : ∀ l ∈ ls, 0x0a ∉ l) :
    (indented (unlines ls)).data.toList = unlines (indentLines 0 ls) := by
  obtain ⟨w, hrun, hw⟩ := foldl_step_lines h 0 .empty
  rw [indented, hrun, hw]
  rfl

end Sections

/-! ## Lines and blocks -/

/-- A line that neither opens nor closes a block. -/
structure Flat (l : Bytes) : Prop where
  opens : l.getLast? ≠ some 0x7b
  closes : l.head? ≠ some 0x7d

/-- Is this byte neither a line break nor a brace? -/
def isInline (b : UInt8) : Bool := b != 0x0a && b != 0x7b && b != 0x7d

theorem ne_of_inline {l : Bytes} (h : l.all isInline = true) {b : UInt8} (hb : b ∈ l) :
    b ≠ 0x0a ∧ b ≠ 0x7b ∧ b ≠ 0x7d := by
  have := List.all_eq_true.mp h b hb
  simpa [isInline, and_assoc] using this

theorem feed_not_mem_of_inline {l : Bytes} (h : l.all isInline = true) : 0x0a ∉ l :=
  fun hmem => (ne_of_inline h hmem).1 rfl

theorem flat_of_inline {l : Bytes} (h : l.all isInline = true) : Flat l :=
  ⟨fun hlast => (ne_of_inline h (List.mem_of_getLast? hlast)).2.1 rfl,
    fun hhead => (ne_of_inline h (List.mem_of_head? hhead)).2.2 rfl⟩

/-- Single lines, and blocks of such lines between a line that ends with an opening brace and one that
starts with a closing brace. -/
inductive Laid : List Bytes → Prop
  | nil : Laid []
  | line {l : Bytes} {ls : List Bytes} (hl : Flat l) (h : Laid ls) : Laid (l :: ls)
  | block {opening closing : Bytes} {inner ls : List Bytes} (hopens : opening.getLast? = some 0x7b)
      (hstart : opening.head? ≠ some 0x7d) (hinner : ∀ l ∈ inner, Flat l)
      (hcloses : closing.head? = some 0x7d) (hend : closing.getLast? ≠ some 0x7b) (h : Laid ls) :
      Laid (opening :: (inner ++ closing :: ls))

theorem Laid.append {xs ys : List Bytes} (hx : Laid xs) (hy : Laid ys) : Laid (xs ++ ys) := by
  induction hx with
  | nil => exact hy
  | line hl _ ih => exact .line hl ih
  | block hopens hstart hinner hcloses hend _ ih =>
    rw [List.cons_append, List.append_assoc, List.cons_append]
    exact .block hopens hstart hinner hcloses hend ih

theorem indentLine_zero (l : Bytes) : indentLine 0 l = l := by
  cases l with
  | nil => rfl
  | cons b rest =>
    simp only [indentLine, depthAt]
    split <;> simp

/-- Inside a block a line is left as it is or gets one tab. -/
theorem indentLine_one (l : Bytes) : indentLine 1 l = l ∨ indentLine 1 l = 0x09 :: l := by
  cases l with
  | nil => exact .inl rfl
  | cons b rest =>
    simp only [indentLine, depthAt]
    split
    · exact .inl rfl
    · split
      · exact .inl rfl
      · exact .inr rfl

theorem depthAfter_flat {l : Bytes} (hl : Flat l) (depth : Nat) : depthAfter depth l = depth := by
  rw [depthAfter, if_neg hl.opens, depthAt, if_neg hl.closes]

theorem indentLines_flat {inner : List Bytes} (h : ∀ l ∈ inner, Flat l) (depth : Nat)
    (ls : List Bytes) :
    indentLines depth (inner ++ ls) = inner.map (indentLine depth) ++ indentLines depth ls := by
  induction inner with
  | nil => rfl
  | cons l inner ih =>
    rw [List.forall_mem_cons] at h
    rw [List.cons_append, indentLines, depthAfter_flat h.1, ih h.2]
    rfl

theorem indentLines_zero_of_flat {ls : List Bytes} (h : ∀ l ∈ ls, Flat l) : indentLines 0 ls = ls := by
  have hmap : ls.map (indentLine 0) = ls := by
    rw [List.map_congr_left fun l _ => indentLine_zero l, List.map_id']
  have := indentLines_flat h 0 []
  rwa [List.append_nil, hmap, indentLines, List.append_nil] at this

theorem indentLines_block {opening closing : Bytes} {inner : List Bytes}
    (hopens : opening.getLast? = some 0x7b) (hstart : opening.head? ≠ some 0x7d)
    (hinner : ∀ l ∈ inner, Flat l) (hcloses : closing.head? = some 0x7d)
    (hend : closing.getLast? ≠ some 0x7b) (ls : List Bytes) :
    indentLines 0 (opening :: (inner ++ closing :: ls)) =
      opening :: (inner.map (indentLine 1) ++ closing :: indentLines 0 ls) := by
  have hopen : depthAfter 0 opening = 1 := by
    rw [depthAfter, if_pos hopens, depthAt, if_neg hstart]
  have hclose : depthAfter 1 closing = 0 := by
    rw [depthAfter, if_neg hend, depthAt, if_pos hcloses]
  have hclosing : indentLine 1 closing = closing := by
    cases closing with
    | nil => rfl
    | cons b rest =>
      simp only [indentLine, depthAt, if_pos hcloses]
      split <;> simp
  rw [indentLines, indentLine_zero, hopen, indentLines_flat hinner, indentLines, hclosing, hclose]

theorem indentLines_append {xs : List Bytes} (hx : Laid xs) (ys : List Bytes) :
    indentLines 0 (xs ++ ys) = indentLines 0 xs ++ indentLines 0 ys := by
  induction hx with
  | nil => rfl
  | @line l ls hl _ ih =>
    rw [List.cons_append, indentLines, indentLines, depthAfter_flat hl, ih]
    rfl
  | block hopens hstart hinner hcloses hend _ ih =>
    rw [List.cons_append, List.append_assoc, List.cons_append,
      indentLines_block hopens hstart hinner hcloses hend,
      indentLines_block hopens hstart hinner hcloses hend, ih]
    simp

theorem mem_indentLines {ls : List Bytes} (h : Laid ls) {l : Bytes} (hl : l ∈ indentLines 0 ls) :
    ∃ l' ∈ ls, l = l' ∨ l = 0x09 :: l' := by
  induction h with
  | nil => cases hl
  | @line l' ls hflat _ ih =>
    rw [indentLines, depthAfter_flat hflat, indentLine_zero] at hl
    rcases List.mem_cons.mp hl with rfl | hl
    · exact ⟨_, List.mem_cons_self, .inl rfl⟩
    · obtain ⟨x, hx, h⟩ := ih hl
      exact ⟨x, List.mem_cons_of_mem _ hx, h⟩
  | @block opening closing inner ls hopens hstart hinner hcloses hend _ ih =>
    rw [indentLines_block hopens hstart hinner hcloses hend, List.mem_cons, List.mem_append,
      List.mem_cons] at hl
    rcases hl with rfl | hl | rfl | hl
    · exact ⟨_, List.mem_cons_self, .inl rfl⟩
    · obtain ⟨x, hx, rfl⟩ := List.mem_map.mp hl
      exact ⟨x, by simp [hx], indentLine_one x⟩
    · exact ⟨l, by simp, .inl rfl⟩
    · obtain ⟨x, hx, h⟩ := ih hl
      exact ⟨x, by simp [hx], h⟩

/-! ## Tabs -/

/-- Each line with a tab in front is inside a block: some line before it ends with an opening brace,
some line behind it starts with a closing one, and no line between these two does either. -/
def TabsInBlocks (lines : List Bytes) : Prop :=
  ∀ before l after, lines = before ++ (0x09 :: l) :: after →
    ∃ pre opening inner inner' closing post,
      before = pre ++ opening :: inner ∧ after = inner' ++ closing :: post ∧
      opening.getLast? = some 0x7b ∧ closing.head? = some 0x7d ∧
      ∀ x ∈ inner ++ (0x09 :: l) :: inner', Flat x

theorem TabsInBlocks.cons {x : Bytes} {lines : List Bytes} (hx : x.head? ≠ some 0x09)
    (h : TabsInBlocks lines) : TabsInBlocks (x :: lines) := by
  intro before l after heq
  cases before with
  | nil =>
    obtain ⟨rfl, -⟩ := List.cons.inj heq
    exact absurd rfl hx
  | cons y before =>
    obtain ⟨rfl, htail⟩ := List.cons.inj heq
    obtain ⟨pre, opening, inner, inner', closing, post, rfl, hrest⟩ := h before l after htail
    exact ⟨x :: pre, opening, inner, inner', closing, post, rfl, hrest⟩

theorem Flat.indentLine {l : Bytes} (h : Flat l) : Flat (indentLine 1 l) := by
  rcases indentLine_one l with heq | heq
  · rw [heq]
    exact h
  · rw [heq]
    refine ⟨?_, by simp⟩
    rw [List.getLast?_cons]
    cases hlast : l.getLast? with
    | none => simp
    | some b =>
      have := h.opens
      rw [hlast] at this
      simpa using this

theorem TabsInBlocks.block {opening closing : Bytes} {inner lines : List Bytes}
    (hopens : opening.getLast? = some 0x7b) (hstart : opening.head? ≠ some 0x09)
    (hinner : ∀ l ∈ inner, Flat l) (hcloses : closing.head? = some 0x7d) (h : TabsInBlocks lines) :
    TabsInBlocks (opening :: (inner ++ closing :: lines)) := by
  intro before l after heq
  cases before with
  | nil =>
    obtain ⟨rfl, -⟩ := List.cons.inj heq
    exact absurd rfl hstart
  | cons y before =>
    obtain ⟨rfl, htail⟩ := List.cons.inj heq
    rcases List.append_eq_append_iff.mp htail with ⟨rest, rfl, hrest⟩ | ⟨rest, rfl, hrest⟩
    · -- behind the block or in its last line, which has no tab
      cases rest with
      | nil =>
        obtain ⟨rfl, -⟩ := List.cons.inj hrest
        cases hcloses
      | cons z rest =>
        obtain ⟨rfl, hlines⟩ := List.cons.inj hrest
        obtain ⟨pre, opening', inner', inner'', closing', post, rfl, hblock⟩ :=
          h rest l after hlines
        refine ⟨opening :: (inner ++ closing :: pre), opening', inner', inner'', closing', post, ?_,
          hblock⟩
        simp
    · cases rest with
      | nil =>
        obtain ⟨rfl, -⟩ := List.cons.inj hrest
        cases hcloses
      | cons z rest =>
        obtain ⟨rfl, rfl⟩ := List.cons.inj hrest
        exact ⟨[], opening, before, rest, closing, lines, rfl, rfl, hopens, hcloses, hinner⟩

theorem Laid.tabsInBlocks {ls : List Bytes} (h : Laid ls) (htabs : ∀ l ∈ ls, l.head? ≠ some 0x09) :
    TabsInBlocks (indentLines 0 ls) := by
  induction h with
  | nil =>
    intro before l after heq
    cases before <;> cases heq
  | line hl _ ih =>
    rw [List.forall_mem_cons] at htabs
    rw [indentLines, depthAfter_flat hl, indentLine_zero]
    exact (ih htabs.2).cons htabs.1
  | block hopens hstart hinner hcloses hend _ ih =>
    rw [List.forall_mem_cons, List.forall_mem_append, List.forall_mem_cons] at htabs
    rw [indentLines_block hopens hstart hinner hcloses hend]
    refine TabsInBlocks.block hopens htabs.1 ?_ hcloses (ih htabs.2.2.2)
    intro l hl
    obtain ⟨x, hx, rfl⟩ := List.mem_map.mp hl
    exact (hinner x hx).indentLine

/-! ## Texts of lines -/

/-- The text consists of lines and blocks, and each line is as `P` says. -/
def Written (P : Bytes → Prop) (t : Bytes) : Prop :=
  ∃ ls, t = unlines ls ∧ (∀ l ∈ ls, 0x0a ∉ l ∧ P l) ∧ Laid ls

variable {P : Bytes → Prop}

theorem written_nil : Written P [] := ⟨[], rfl, by simp, .nil⟩

theorem written_line {l : Bytes} (hfeed : 0x0a ∉ l) (hP : P l) (hflat : Flat l) :
    Written P (l ++ [0x0a]) :=
  ⟨[l], by simp [unlines], by simp [hfeed, hP], .line hflat .nil⟩

theorem Written.mono {Q : Bytes → Prop} {t : Bytes} (ht : Written P t) (h : ∀ l, P l → Q l) :
    Written Q t := by
  obtain ⟨ls, rfl, hls, hlaid⟩ := ht
  exact ⟨ls, rfl, fun l hl => ⟨(hls l hl).1, h l (hls l hl).2⟩, hlaid⟩

theorem Written.append {t u : Bytes} (ht : Written P t) (hu : Written P u) :
    Written P (t ++ u) := by
  obtain ⟨ls, rfl, hls, hlaid⟩ := ht
  obtain ⟨ls', rfl, hls', hlaid'⟩ := hu
  refine ⟨ls ++ ls', by simp [unlines], ?_, hlaid.append hlaid'⟩
  rw [List.forall_mem_append]
  exact ⟨hls, hls'⟩

theorem Written.flatMap {α : Type} {f : α → Bytes} {as : List α} (h : ∀ a ∈ as, Written P (f a)) :
    Written P (as.flatMap f) := by
  induction as with
  | nil => exact written_nil
  | cons a as ih =>
    rw [List.forall_mem_cons] at h
    exact h.1.append (ih h.2)

/-- Are these lines and blocks, when a block is open or not? -/
def isLaid : Bool → List Bytes → Bool
  | inside, [] => !inside
  | inside, l :: ls =>
    if inside then l.getLast? != some 0x7b && isLaid (l.head? != some 0x7d) ls
    else l.head? != some 0x7d && isLaid (l.getLast? == some 0x7b) ls

theorem laid_of_isLaid (ls : List Bytes) :
    (isLaid false ls = true → Laid ls) ∧ (isLaid true ls = true → ∃ inner closing rest,
      ls = inner ++ closing :: rest ∧ (∀ l ∈ inner, Flat l) ∧ closing.head? = some 0x7d ∧
        closing.getLast? ≠ some 0x7b ∧ Laid rest) := by
  induction ls with
  | nil => exact ⟨fun _ => .nil, fun h => by cases h⟩
  | cons l ls ih =>
    refine ⟨?_, ?_⟩
    · intro h
      simp only [isLaid, Bool.false_eq_true, if_false, Bool.and_eq_true, bne_iff_ne] at h
      obtain ⟨hcloses, h⟩ := h
      by_cases hopens : l.getLast? = some 0x7b
      · rw [hopens] at h
        obtain ⟨inner, closing, rest, rfl, hinner, hclosing, hend, hrest⟩ := ih.2 h
        exact .block hopens hcloses hinner hclosing hend hrest
      · rw [beq_eq_false_iff_ne.mpr hopens] at h
        exact .line ⟨hopens, hcloses⟩ (ih.1 h)
    · intro h
      simp only [isLaid, if_true, Bool.and_eq_true, bne_iff_ne] at h
      obtain ⟨hopens, h⟩ := h
      by_cases hcloses : l.head? = some 0x7d
      · rw [bne_eq_false_iff_eq.mpr hcloses] at h
        exact ⟨[], l, ls, rfl, by simp, hcloses, hopens, ih.1 h⟩
      · rw [bne_iff_ne.mpr hcloses] at h
        obtain ⟨inner, closing, rest, rfl, hinner, hrest⟩ := ih.2 h
        exact ⟨l :: inner, closing, rest, rfl,
          List.forall_mem_cons.mpr ⟨⟨hopens, hcloses⟩, hinner⟩, hrest⟩

/-- Does a text consist of lines and blocks, each line as `p` says? -/
def isWritten (p : Bytes → Bool) (t : Bytes) : Bool :=
  let ls := (t.split 0x0a).dropLast
  t == unlines ls && ls.all (fun l => !l.contains 0x0a && p l) && isLaid false ls

theorem written_of_isWritten {p : Bytes → Bool} {t : Bytes} (h : isWritten p t = true) :
    Written (fun l => p l = true) t := by
  simp only [isWritten, Bool.and_eq_true, beq_iff_eq, List.all_eq_true, Bool.not_eq_true',
    List.contains_eq_mem, decide_eq_false_iff_not] at h
  obtain ⟨⟨ht, hls⟩, hlaid⟩ := h
  exact ⟨_, ht, hls, (laid_of_isLaid _).1 hlaid⟩

/-- The lines of a joined text, the last one empty. -/
theorem split_indented {ls : List Bytes} (h : ∀ l ∈ ls, 0x0a ∉ l) :
    Bytes.split 0x0a (Sections.indented (unlines ls)).data.toList = indentLines 0 ls ++ [[]] := by
  rw [Sections.toList_indented h]
  exact Bytes.split_lines (feed_not_mem_indentLines h 0)

end NetImage
