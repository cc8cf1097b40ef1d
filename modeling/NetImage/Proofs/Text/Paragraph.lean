import NetImage.Text.Paragraph
import NetImage.Proofs.Text.Pieces
import NetImage.Proofs.Text.Tokens

/-!
# NetImage.Proofs.Text.Paragraph

A paragraph loses nothing of a text that has no white space but spaces, keeps its words whole and
fills its lines.

* `Paragraph.Wraps`: what the lines of a text are.
* `Paragraph.Layout`: the lines while the text is being read, as runes, and `Paragraph.Fill.Reads`:
  how a filling line stands for them.
* `Paragraph.Fill.Holds.step`: what one rune does to them, and `Paragraph.Fill.holds_foldl`: any
  sequence.
* `paragraph_wraps`: a paragraph is an empty line and the lines of its text, each behind the indent.
-/

namespace NetImage

/-- The rune of a space. -/
def Rune.space : Rune := ⟨0x20, [0x20]⟩

open Rune (space)

namespace Paragraph

/-- This line has at most `fit` runes, or no white space but what it starts with. -/
def Fits (fit : Int) (rs : List Rune) : Prop :=
  (rs.length : Int) ≤ fit ∨ NoBlank (rs.dropWhile fun r => isBlank r.code)

/-- With a space and the word that the next line starts with, this line would have more than `fit`
runes. -/
def Full (fit : Int) (rs next : List Rune) : Prop :=
  fit < rs.length + 1 + (next.takeWhile fun r => !isBlank r.code).length

/-- The lines of a text. -/
structure Wraps (fit : Int) (text : Bytes) (lines : List Bytes) : Prop where
  /-- With spaces between them the lines are the text. One space at its end may be missing, if the
  last line has no room for it. -/
  joined : text = Bytes.join [0x20] lines ∨
    text = Bytes.join [0x20] lines ++ [0x20] ∧ ∃ l ∈ lines.getLast?, Full fit (runes l) []
  /-- The words of the lines are those of the text: none is cut. -/
  words : lines.flatMap fields = fields text
  nonempty : ∀ l ∈ lines, l ≠ []
  fits : ∀ l ∈ lines, Fits fit (runes l)
  /-- A line ends only where the next word has no room. -/
  full : lines.IsChain fun l next => Full fit (runes l) (runes next)

/-! ## Lines read alone -/

theorem eq_space_of_mem_runes {s : Bytes} {r : Rune} (h : r ∈ runes s) (hcode : r.code = 0x20) :
    r = space := by
  obtain ⟨b, t, rfl⟩ := exists_of_mem_runes h
  by_cases hb : b < 0x80
  · rw [Rune.first_ascii hb] at hcode ⊢
    obtain rfl : b = 0x20 := UInt8.toNat_inj.mp hcode
    rfl
  · have := (Rune.first_wide hb t).1
    omega

/-- Lines with spaces between them are read one by one. -/
theorem runes_line {s : Bytes} {lines : List (List Rune)} {last : List Rune}
    (h : runes s = lines.flatMap (· ++ [space]) ++ last) :
    ∀ l ∈ lines ++ [last], runes (l.flatMap Rune.bytes) = l := by
  induction lines generalizing s with
  | nil =>
    rw [List.nil_append, List.forall_mem_singleton]
    exact runes_of_suffix h
  | cons l lines ih =>
    rw [List.flatMap_cons, List.append_assoc, List.append_assoc] at h
    rw [List.cons_append, List.forall_mem_cons]
    exact ⟨runes_before_blank h rfl, ih (runes_of_suffix (h.trans (List.append_cons l space _)))⟩

theorem fields_join (lines : List Bytes) :
    fields (Bytes.join [0x20] lines) = lines.flatMap fields := by
  induction lines with
  | nil => rfl
  | cons l lines ih =>
    cases lines with
    | nil => simp [Bytes.join]
    | cons l' lines =>
      rw [Bytes.join, List.intercalate_cons_cons, List.append_assoc, List.singleton_append,
        fields_append_space, ← Bytes.join, ih]
      rfl

/-! ## Lines while the text is read -/

/-- The runes read so far, in finished lines and one that is being filled: `head` is what stands
before its last blank, `tail` the rest. -/
structure Layout (fit : Int) (rs : List Rune) (lines : List (List Rune)) (head tail : List Rune) :
    Prop where
  read : rs = lines.flatMap (· ++ [space]) ++ (head ++ tail)
  /-- There is no blank yet, or the last one starts the tail. -/
  lastWord : head = [] ∧ NoBlank tail ∨ ∃ word, tail = space :: word ∧ NoBlank word
  nonempty : ∀ l ∈ lines, l ≠ []
  fits : ∀ l ∈ lines, Fits fit l
  head_fits : Fits fit head
  full : lines.IsChain (Full fit)
  last_full : ∀ l ∈ lines.getLast?, Full fit l (head ++ tail)

theorem noBlank_dropWhile {rs : List Rune} (h : NoBlank rs) :
    NoBlank (rs.dropWhile fun r => isBlank r.code) :=
  fun r hr => h r ((List.dropWhile_sublist _).subset hr)

theorem fits_of_noBlank {rs : List Rune} (h : NoBlank rs) (fit : Int) : Fits fit rs :=
  .inr (noBlank_dropWhile h)

theorem takeWhile_noBlank {rs : List Rune} (h : NoBlank rs) :
    rs.takeWhile (fun r => !isBlank r.code) = rs := by
  rw [List.takeWhile_eq_self_iff]
  intro r hr
  simp [h r hr]

theorem fits_space_cons {word : List Rune} (h : NoBlank word) (fit : Int) :
    Fits fit (space :: word) := by
  right
  rw [List.dropWhile_cons_of_pos rfl]
  exact noBlank_dropWhile h

theorem full_append_space {fit : Int} {rs next word : List Rune} :
    Full fit rs (next ++ space :: word) ↔ Full fit rs next := by
  have htake : (next ++ space :: word).takeWhile (fun r => !isBlank r.code) =
      next.takeWhile fun r => !isBlank r.code := by
    rw [List.takeWhile_append, List.takeWhile_cons_of_neg (by decide), List.append_nil]
    split
    · rename_i hall
      exact ((List.takeWhile_prefix _).eq_of_length hall).symm
    · rfl
  rw [Full, Full, htake]

theorem Full.append {fit : Int} {rs next : List Rune} (h : Full fit rs next) (more : List Rune) :
    Full fit rs (next ++ more) := by
  have hle : (next.takeWhile fun r => !isBlank r.code).length ≤
      ((next ++ more).takeWhile fun r => !isBlank r.code).length := by
    rw [List.takeWhile_append]
    split
    · exact ((List.takeWhile_sublist _).trans (List.sublist_append_left _ _)).length_le
    · exact Nat.le_refl _
  unfold Full at h ⊢
  omega

theorem isChain_concat {α : Type} {R : α → α → Prop} {l : List α} {a : α} :
    (l ++ [a]).IsChain R ↔ l.IsChain R ∧ ∀ x ∈ l.getLast?, R x a := by
  simp [List.isChain_append]

namespace Layout

variable {fit : Int} {rs : List Rune} {lines : List (List Rune)} {head tail word : List Rune}

theorem endLine (h : Layout fit rs lines head (space :: word)) (hne : head ≠ [])
    (hword : NoBlank word) (hlong : fit < head.length + 1 + word.length) :
    Layout fit rs (lines ++ [head]) [] word where
  read := by
    rw [h.read]
    simp
  lastWord := .inl ⟨rfl, hword⟩
  nonempty := List.forall_mem_append.mpr ⟨h.nonempty, List.forall_mem_singleton.mpr hne⟩
  fits := List.forall_mem_append.mpr ⟨h.fits, List.forall_mem_singleton.mpr h.head_fits⟩
  head_fits := fits_of_noBlank (List.forall_mem_nil _) fit
  full := by
    refine isChain_concat.mpr ⟨h.full, ?_⟩
    intro l hl
    exact full_append_space.mp (h.last_full l hl)
  last_full := by
    intro l hl
    rw [List.getLast?_concat] at hl
    obtain rfl := Option.some.inj hl
    rw [List.nil_append, Full, takeWhile_noBlank hword]
    exact hlong

theorem blank (h : Layout fit rs lines head tail) (hfits : Fits fit (head ++ tail)) :
    Layout fit (rs ++ [space]) lines (head ++ tail) [space] where
  read := by
    rw [h.read]
    simp
  lastWord := .inr ⟨[], rfl, List.forall_mem_nil _⟩
  nonempty := h.nonempty
  fits := h.fits
  head_fits := hfits
  full := h.full
  last_full := fun l hl => (h.last_full l hl).append [space]

theorem rune (h : Layout fit rs lines head tail) {r : Rune} (hr : isBlank r.code = false) :
    Layout fit (rs ++ [r]) lines head (tail ++ [r]) where
  read := by
    rw [h.read]
    simp
  lastWord := by
    have happend : ∀ {word : List Rune}, NoBlank word → NoBlank (word ++ [r]) :=
      fun hword => List.forall_mem_append.mpr ⟨hword, List.forall_mem_singleton.mpr hr⟩
    rcases h.lastWord with ⟨hhead, htail⟩ | ⟨word, rfl, hword⟩
    · exact .inl ⟨hhead, happend htail⟩
    · exact .inr ⟨word ++ [r], rfl, happend hword⟩
  nonempty := h.nonempty
  fits := h.fits
  head_fits := h.head_fits
  full := h.full
  last_full := by
    intro l hl
    rw [← List.append_assoc]
    exact (h.last_full l hl).append [r]

/-- A line that is not ended is short enough, or it has no blank to end at but one in front. -/
theorem fits_line (h : Layout fit rs lines head tail)
    (hshort : ¬(fit < head.length + tail.length ∧ head.length ≠ 0)) : Fits fit (head ++ tail) := by
  by_cases hcount : fit < head.length + tail.length
  · have hnil : head = [] := by
      by_contra hne
      exact hshort ⟨hcount, fun hlen => hne (List.length_eq_zero_iff.mp hlen)⟩
    subst hnil
    rcases h.lastWord with ⟨-, htail⟩ | ⟨word, rfl, hword⟩
    · exact fits_of_noBlank htail fit
    · exact fits_space_cons hword fit
  · left
    rw [List.length_append]
    omega

end Layout

/-! ## The filling line -/

/-- A filling line holds these lines as bytes, and counts its runes. -/
structure Fill.Reads (f : Fill) (lines : List (List Rune)) (head tail : List Rune) : Prop where
  finished_eq : f.finished.reverse = lines.map (·.flatMap Rune.bytes)
  head_eq : f.head = head.flatMap Rune.bytes
  headCount_eq : f.headCount = head.length
  tail_eq : f.tail.reverse = tail.flatMap Rune.bytes
  count_eq : f.count = head.length + tail.length

/-- A line that has been filled with these runes. -/
def Fill.Holds (fit : Int) (rs : List Rune) (f : Fill) : Prop :=
  ∃ lines head tail, f.Reads lines head tail ∧ Layout fit rs lines head tail

namespace Fill

variable {fit : Int} {rs : List Rune} {f : Fill}

/-- Once a line that has grown too long has been ended, what is left of it fits. -/
theorem Holds.endLine (h : f.Holds fit rs) :
    ∃ lines head tail, (f.endLine fit).Reads lines head tail ∧ Layout fit rs lines head tail ∧
      Fits fit (head ++ tail) := by
  obtain ⟨lines, head, tail, hreads, hlayout⟩ := h
  unfold Fill.endLine
  rw [hreads.headCount_eq, hreads.count_eq]
  split
  · rename_i hlong
    have hne : head ≠ [] := fun hnil => hlong.2 (by rw [hnil]; rfl)
    obtain ⟨word, rfl, hword⟩ := hlayout.lastWord.resolve_left fun hnil => hne hnil.1
    -- the byte that is dropped is the space before the last word
    have hlong' : fit < head.length + 1 + word.length := by
      have := hlong.1
      rw [List.length_cons] at this
      omega
    refine ⟨lines ++ [head], [], word, ?_, hlayout.endLine hne hword hlong', fits_of_noBlank hword fit⟩
    constructor
    · simp [hreads.finished_eq, hreads.head_eq]
    · rfl
    · rfl
    · rw [← List.tail_reverse, hreads.tail_eq]
      rfl
    · simp only [List.length_cons, List.length_nil]
      omega
  · rename_i hshort
    exact ⟨lines, head, tail, hreads, hlayout, hlayout.fits_line (by exact_mod_cast hshort)⟩

/-- One rune further. -/
theorem Holds.step (h : f.Holds fit rs) {r : Rune} (hr : isBlank r.code = true → r = space) :
    (f.step fit r).Holds fit (rs ++ [r]) := by
  unfold Fill.step
  by_cases hblank : isBlank r.code = true
  · -- what the space stands behind fits by now, and becomes the head
    obtain rfl := hr hblank
    obtain ⟨lines, head, tail, hreads, hlayout, hfits⟩ := h.endLine
    refine ⟨lines, head ++ tail, [space], ?_, hlayout.blank hfits⟩
    simp only [hblank, if_true]
    constructor
    · exact hreads.finished_eq
    · simp [hreads.head_eq, hreads.tail_eq]
    · simp [hreads.count_eq]
    · rfl
    · simp [hreads.count_eq]
  · obtain ⟨lines, head, tail, hreads, hlayout⟩ := h
    refine ⟨lines, head, tail ++ [r], ?_, hlayout.rune (by simpa using hblank)⟩
    simp only [hblank, if_false, Bool.false_eq_true]
    constructor
    · exact hreads.finished_eq
    · exact hreads.head_eq
    · exact hreads.headCount_eq
    · simp [hreads.tail_eq]
    · simp [hreads.count_eq, Nat.add_assoc]

theorem holds_foldl (h : f.Holds fit rs) {ts : List Rune}
    (hts : ∀ r ∈ ts, isBlank r.code = true → r = space) :
    (ts.foldl (Fill.step fit) f).Holds fit (rs ++ ts) := by
  induction ts generalizing f rs with
  | nil => rwa [List.append_nil]
  | cons r ts ih =>
    rw [List.forall_mem_cons] at hts
    have := ih (h.step hts.1) hts.2
    rwa [List.append_assoc, List.singleton_append] at this

theorem holds_empty (fit : Int) : Holds fit [] ⟨[], 0, [], 0, []⟩ := by
  have hnil : NoBlank [] := List.forall_mem_nil _
  refine ⟨[], [], [], ⟨rfl, rfl, rfl, rfl, rfl⟩, ?_⟩
  exact ⟨rfl, .inl ⟨rfl, hnil⟩, List.forall_mem_nil _, List.forall_mem_nil _, fits_of_noBlank hnil fit,
    .nil, by simp⟩

end Fill

/-! ## Whole texts -/

/-- What is asked of lines can be said of their runes. -/
theorem Wraps.of_runes {fit : Int} {text : Bytes} {lines : List Bytes} {ls : List (List Rune)}
    (hls : lines.map runes = ls)
    (hjoined : text = Bytes.join [0x20] lines ∨
      text = Bytes.join [0x20] lines ++ [0x20] ∧ ∃ l ∈ lines.getLast?, Full fit (runes l) [])
    (hnonempty : ∀ l ∈ ls, l ≠ []) (hfits : ∀ l ∈ ls, Fits fit l) (hfull : ls.IsChain (Full fit)) :
    Wraps fit text lines where
  joined := hjoined
  words := by
    rw [← fields_join]
    rcases hjoined with htext | ⟨htext, -⟩
    · rw [htext]
    · rw [htext, fields_append_space]
      exact (List.append_nil _).symm
  nonempty := by
    rintro l hl rfl
    exact hnonempty _ (hls ▸ List.mem_map_of_mem hl) rfl
  fits := fun l hl => hfits _ (hls ▸ List.mem_map_of_mem hl)
  full := by
    rw [← hls, List.isChain_map] at hfull
    exact hfull

theorem text_eq_join {text : Bytes} {lines : List (List Rune)} {last : List Rune}
    (h : runes text = lines.flatMap (· ++ [space]) ++ last) :
    text = Bytes.join [0x20] (lines.map (·.flatMap Rune.bytes) ++ [last.flatMap Rune.bytes]) := by
  rw [← bytes_runes text, h, Bytes.join_concat, List.flatMap_append, List.flatMap_assoc,
    List.flatMap_map]
  congr 2
  funext l
  simp [space]

theorem map_runes_bytes {ls : List (List Rune)} (h : ∀ l ∈ ls, runes (l.flatMap Rune.bytes) = l) :
    (ls.map (·.flatMap Rune.bytes)).map runes = ls := by
  rw [List.map_map]
  exact (List.map_congr_left h).trans (List.map_id ls)

namespace Layout

variable {fit : Int} {text : Bytes} {lines : List (List Rune)} {head tail : List Rune}

/-- The last line is not empty. -/
theorem wraps_concat (h : Layout fit (runes text) lines head tail) (hfits : Fits fit (head ++ tail))
    (hne : head ++ tail ≠ []) :
    Wraps fit text ((lines ++ [head ++ tail]).map (·.flatMap Rune.bytes)) := by
  refine .of_runes (map_runes_bytes (runes_line h.read)) (.inl ?_) ?_ ?_ ?_
  · rw [List.map_append]
    exact text_eq_join h.read
  · exact List.forall_mem_append.mpr ⟨h.nonempty, List.forall_mem_singleton.mpr hne⟩
  · exact List.forall_mem_append.mpr ⟨h.fits, List.forall_mem_singleton.mpr hfits⟩
  · exact isChain_concat.mpr ⟨h.full, h.last_full⟩

/-- Nothing stands behind the last finished line but a space. -/
theorem wraps_of_nil (h : Layout fit (runes text) lines [] []) :
    Wraps fit text (lines.map (·.flatMap Rune.bytes)) := by
  have hrunes := (List.forall_mem_append.mp (runes_line h.read)).1
  refine .of_runes (map_runes_bytes hrunes) ?_ h.nonempty h.fits h.full
  have htext := text_eq_join h.read
  rcases List.eq_nil_or_concat' lines with rfl | ⟨init, last, rfl⟩
  · exact .inl htext
  · right
    constructor
    · rw [htext, Bytes.join_concat, List.map_append, List.map_singleton, Bytes.join_concat]
      simp
    · refine ⟨last.flatMap Rune.bytes, by simp, ?_⟩
      rw [hrunes last (by simp)]
      exact h.last_full last (by simp)

end Layout

theorem wraps_pieces (fit : Int) {text : Bytes}
    (h : ∀ r ∈ runes text, isBlank r.code = true → r.code = 0x20) :
    Wraps fit text (pieces fit text) := by
  have hspaces : ∀ r ∈ runes text, isBlank r.code = true → r = space :=
    fun r hr hblank => eq_space_of_mem_runes hr (h r hr hblank)
  obtain ⟨lines, head, tail, hreads, hlayout, hfits⟩ :=
    (Fill.holds_foldl (Fill.holds_empty fit) hspaces).endLine
  rw [List.nil_append] at hlayout
  unfold pieces Fill.close
  simp only [hreads.finished_eq, hreads.head_eq, hreads.tail_eq, hreads.count_eq,
    ← List.flatMap_append]
  split
  · rename_i hcount
    obtain ⟨hhead, htail⟩ := Nat.add_eq_zero_iff.mp hcount
    obtain rfl := List.length_eq_zero_iff.mp hhead
    obtain rfl := List.length_eq_zero_iff.mp htail
    rw [List.append_nil]
    exact hlayout.wraps_of_nil
  · rename_i hcount
    have hne : head ++ tail ≠ [] := by
      intro hnil
      rw [← List.length_append, hnil] at hcount
      exact hcount rfl
    have := hlayout.wraps_concat hfits hne
    rwa [List.map_append] at this

end Paragraph

open Paragraph in
/-- **A paragraph is its text.** If a text has no white space but spaces, its paragraph is an empty
line and lines behind the indent that give the text back, with no word cut and none of them too wide
unless it is one word; a text that is empty has no lines. -/
theorem paragraph_wraps (indent : Bytes) {text : Bytes}
    (h : ∀ r ∈ runes text, isBlank r.code = true → r.code = 0x20) :
    (∃ lines, paragraph indent text = 0x0a :: lines.flatMap (fun l => indent ++ l ++ [0x0a]) ∧
      Wraps (80 - indent.length) text lines) ∧
      (text = [] → paragraph indent text = [0x0a]) := by
  refine ⟨⟨_, rfl, wraps_pieces _ h⟩, ?_⟩
  rintro rfl
  simp [paragraph, pieces, Fill.close, Fill.endLine, runes, Rune.readFrom]

/-- Spaces in front and in a row, a word that is wider than ten runes, and ten runes before the last
space. -/
def raggedText : Bytes := ascii " zwölf  ü überlanges-wort vier, drei "

open Paragraph in
theorem paragraph_raggedText :
    (∀ r ∈ runes raggedText, isBlank r.code = true → r.code = 0x20) ∧
      (∃ lines, paragraph (List.replicate 70 0x20) raggedText =
          0x0a :: lines.flatMap (fun l => List.replicate 70 0x20 ++ l ++ [0x0a]) ∧
        Wraps (80 - (List.replicate 70 (0x20 : UInt8)).length) raggedText lines) ∧
      (raggedText = [] → paragraph (List.replicate 70 0x20) raggedText = [0x0a]) := by
  have hspaces : ∀ r ∈ runes raggedText, isBlank r.code = true → r.code = 0x20 := by decide
  exact ⟨hspaces, paragraph_wraps (List.replicate 70 0x20) hspaces⟩

end NetImage
