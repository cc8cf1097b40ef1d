import NetImage.Proofs.Text.Rune
import Mathlib.Data.List.TakeWhile

/-!
# NetImage.Proofs.Text.Tokens

The tokens of a text are its maximal runs of runes that are not white space.

* `Run`: such a run, with what stands before and behind it.
* `tokensOf_blank`, `tokensOf_word`: what the scan makes of white space and of a run.
* `tokenized_iff`: the scan finds all runs, in order, and nothing else.
* `solid_of_mem_tokens`: a token read alone holds no white space either.
* `tokensOf_line`: words with single spaces between them are the tokens of their line.
* `fields_append_space`: no field goes on across a space.
* `length_fields_le`: a string has no more fields than bytes.
-/

namespace NetImage

/-- Is every rune here white space? -/
def AllBlank (rs : List Rune) : Prop := ∀ r ∈ rs, isBlank r.code = true

/-- Is no rune here white space? -/
def NoBlank (rs : List Rune) : Prop := ∀ r ∈ rs, isBlank r.code = false

/-- A run that is followed by `rs` cannot go on there. -/
def StopsAt (rs : List Rune) : Prop := ∀ r ∈ rs.head?, isBlank r.code = true

/-- A maximal run of runes of a text that are not white space. -/
structure Run (text : Bytes) where
  before : List Rune
  word : List Rune
  after : List Rune
  split : runes text = before ++ (word ++ after)
  nonempty : word ≠ []
  noBlank : NoBlank word
  starts : ∀ r ∈ before.getLast?, isBlank r.code = true
  stops : StopsAt after

/-- The run as a token. Its line is counted by the line breaks before it. -/
def Run.token {text : Bytes} (r : Run text) : Token :=
  ⟨1 + (r.before.flatMap Rune.bytes).count 0x0a, r.word.flatMap Rune.bytes⟩

/-- These are all runs of the text, in order. -/
def Tokenized (text : Bytes) (ts : List Token) : Prop :=
  ∃ runs : List (Run text), (∀ r, r ∈ runs) ∧
    runs.Pairwise (fun r r' => r.before.length < r'.before.length) ∧ ts = runs.map Run.token

/-! ## The scan -/

namespace Token

theorem close_foldl (rs : List Rune) (line : Nat) (current : Bytes) (done : List Token) :
    (rs.foldl Scan.step ⟨line, current, done⟩).close =
      (rs.foldl Scan.step ⟨line, current, []⟩).close ++ done := by
  induction rs generalizing line current done with
  | nil => cases current <;> rfl
  | cons r rs ih =>
    rw [List.foldl_cons, List.foldl_cons]
    by_cases hr : isBlank r.code = true
    · simp only [Scan.step, hr, if_true]
      rw [ih, ih _ _ (Scan.close _), List.append_assoc]
      cases current <;> rfl
    · simp only [Scan.step, hr, if_false, Bool.false_eq_true]
      exact ih _ _ _

theorem foldl_noBlank {word : List Rune} (h : NoBlank word) (s : Scan) :
    word.foldl Scan.step s =
      { s with current := (word.flatMap Rune.bytes).reverse ++ s.current } := by
  induction word generalizing s with
  | nil => rfl
  | cons r word ih =>
    rw [List.foldl_cons, ih fun x hx => h x (List.mem_cons_of_mem _ hx)]
    simp [Scan.step, h r List.mem_cons_self]

end Token

theorem tokensOf_blank {gap : List Rune} (h : AllBlank gap) (line : Nat) (rs : List Rune) :
    tokensOf line (gap ++ rs) =
      tokensOf (line + gap.countP fun r => r.code == lineFeed) rs := by
  induction gap generalizing line with
  | nil => rfl
  | cons r gap ih =>
    have hstep : Token.Scan.step ⟨line, [], []⟩ r =
        ⟨line + if r.code == lineFeed then 1 else 0, [], []⟩ := by
      simp only [Token.Scan.step, h r List.mem_cons_self, if_true, Token.Scan.close]
      by_cases hr : r.code = lineFeed <;> simp [hr]
    have := ih (fun x hx => h x (List.mem_cons_of_mem _ hx))
      (line + if r.code == lineFeed then 1 else 0)
    rw [List.countP_cons, Nat.add_comm (gap.countP _), ← Nat.add_assoc, ← this]
    simp only [tokensOf, List.cons_append, List.foldl_cons, hstep]

theorem tokensOf_word {word rest : List Rune} (h : NoBlank word)
    (hne : word.flatMap Rune.bytes ≠ []) (hrest : StopsAt rest) (line : Nat) :
    tokensOf line (word ++ rest) = ⟨line, word.flatMap Rune.bytes⟩ :: tokensOf line rest := by
  simp only [tokensOf, List.foldl_append, Token.foldl_noBlank h]
  cases rest with
  | nil => simp [Token.Scan.close, hne]
  | cons r rest =>
    have hr : isBlank r.code = true := hrest r rfl
    simp only [List.foldl_cons, Token.Scan.step, hr, if_true]
    rw [Token.close_foldl]
    simp [Token.Scan.close, hne]

/-! ## Runs -/

/-- What stands before white space is read alone as it is read in the text, because white space does
not continue a rune. -/
theorem runes_before_blank {s : Bytes} {rs ts : List Rune} {r : Rune} (h : runes s = rs ++ r :: ts)
    (hr : isBlank r.code = true) : runes (rs.flatMap Rune.bytes) = rs := by
  have hrest : runes ((r :: ts).flatMap Rune.bytes) = r :: ts := runes_of_suffix h
  have hs : s = rs.flatMap Rune.bytes ++ (r :: ts).flatMap Rune.bytes := by
    rw [← bytes_runes s, h, List.flatMap_append]
  obtain ⟨b, t, rfl⟩ : ∃ b t, r = Rune.first b t := exists_of_mem_runes (s := s) (by rw [h]; simp)
  have hb : Rune.isContinuation b = false := by
    by_contra hb
    rw [Rune.first_of_continuation (by simpa using hb)] at hr
    cases hr
  rw [List.flatMap_cons, Rune.first_bytes, List.cons_append] at hrest hs
  rw [hs, runes_append hb, hrest] at h
  exact List.append_cancel_right h

/-- A list of runes is white space, or it has a first run. -/
theorem allBlank_or_split (rs : List Rune) :
    AllBlank rs ∨ ∃ gap word after, rs = gap ++ (word ++ after) ∧ AllBlank gap ∧ word ≠ [] ∧
      NoBlank word ∧ StopsAt after := by
  have hgap : AllBlank (rs.takeWhile fun r => isBlank r.code) := by
    intro r hr
    simpa using List.mem_takeWhile_imp hr
  cases hrest : rs.dropWhile fun r => isBlank r.code with
  | nil => exact .inl (List.dropWhile_eq_nil_iff.mp hrest)
  | cons r rest =>
    have hr : isBlank r.code = false := by
      have := List.head?_dropWhile_not (fun r : Rune => isBlank r.code) rs
      rw [hrest] at this
      exact this
    refine .inr ⟨rs.takeWhile fun r => isBlank r.code,
      (r :: rest).takeWhile fun r => !isBlank r.code,
      (r :: rest).dropWhile fun r => !isBlank r.code, ?_, hgap, ?_, ?_, ?_⟩
    · rw [List.takeWhile_append_dropWhile, ← hrest, List.takeWhile_append_dropWhile]
    · simp [hr]
    · intro x hx
      simpa using List.mem_takeWhile_imp hx
    · intro x hx
      have := List.head?_dropWhile_not (fun r : Rune => !isBlank r.code) (r :: rest)
      rw [Option.mem_def.mp hx] at this
      simpa using this

namespace Run

variable {text : Bytes}

theorem ext_of_length {r r' : Run text} (h : r.before.length = r'.before.length) : r = r' := by
  obtain ⟨before, word, after, hsplit, _, hword, _, hafter⟩ := r
  obtain ⟨before', word', after', hsplit', _, hword', _, hafter'⟩ := r'
  obtain ⟨rfl, hrest⟩ := List.append_inj (hsplit.symm.trans hsplit') h
  -- each word is what can be taken without white space
  have htake : ∀ {w a : List Rune}, NoBlank w → StopsAt a →
      (w ++ a).takeWhile (fun r => !isBlank r.code) = w := by
    intro w a hw ha
    rw [List.takeWhile_append_of_pos fun r hr => by simp [hw r hr]]
    cases a with
    | nil => simp
    | cons r a => simp [ha r rfl]
  have heq : word = word' := by rw [← htake hword hafter, hrest, htake hword' hafter']
  subst heq
  obtain rfl := List.append_cancel_left hrest
  rfl

/-- The first rune of a run, by its place in the text. -/
theorem exists_first (r : Run text) :
    ∃ x, (runes text)[r.before.length]? = some x ∧ isBlank x.code = false := by
  cases hw : r.word with
  | nil => exact absurd hw r.nonempty
  | cons x word =>
    refine ⟨x, ?_, r.noBlank x (by rw [hw]; exact List.mem_cons_self)⟩
    rw [r.split, hw, List.getElem?_append_right le_rfl]
    simp

/-- A run does not start in white space. -/
theorem not_in_blank (r : Run text) {pre gap post : List Rune}
    (hsplit : runes text = pre ++ (gap ++ post)) (hgap : AllBlank gap)
    (hle : pre.length ≤ r.before.length) : (pre ++ gap).length ≤ r.before.length := by
  by_contra hlt
  rw [List.length_append, Nat.not_le] at hlt
  obtain ⟨x, hx, hnot⟩ := r.exists_first
  rw [hsplit, List.getElem?_append_right hle, List.getElem?_append_left (by omega)] at hx
  rw [hgap x (List.mem_of_getElem? hx)] at hnot
  cases hnot

/-- A run does not start inside another one, because what stands right before it is white space. -/
theorem not_in_word (r : Run text) {pre word post : List Rune}
    (hsplit : runes text = pre ++ (word ++ post)) (hword : NoBlank word)
    (hlt : pre.length < r.before.length) : (pre ++ word).length ≤ r.before.length := by
  by_contra hgt
  rw [List.length_append, Nat.not_le] at hgt
  obtain ⟨x, hx⟩ : ∃ x, word[r.before.length - 1 - pre.length]? = some x :=
    ⟨_, List.getElem?_eq_getElem (by omega)⟩
  have hlast : r.before.getLast? = some x := by
    rw [List.getLast?_eq_getElem?,
      ← List.getElem?_append_left (show r.before.length - 1 < r.before.length by omega), ← r.split,
      hsplit, List.getElem?_append_right (by omega), List.getElem?_append_left (by omega), hx]
  have hblank := r.starts x hlast
  rw [hword x (List.mem_of_getElem? hx)] at hblank
  cases hblank

theorem bytes_ne_nil (r : Run text) : r.word.flatMap Rune.bytes ≠ [] := by
  intro hnil
  cases hw : r.word with
  | nil => exact r.nonempty hw
  | cons x word =>
    obtain ⟨b, t, rfl⟩ : ∃ b t, x = Rune.first b t := by
      refine exists_of_mem_runes (s := text) ?_
      rw [r.split, hw]
      simp
    rw [hw, List.flatMap_cons, Rune.first_bytes] at hnil
    cases hnil

/-- A run is read alone as it is read in the text. -/
theorem runes_bytes (r : Run text) : runes (r.word.flatMap Rune.bytes) = r.word := by
  have hboth : runes ((r.word ++ r.after).flatMap Rune.bytes) = r.word ++ r.after :=
    runes_of_suffix r.split
  cases hafter : r.after with
  | nil => simpa [hafter] using hboth
  | cons x after =>
    rw [hafter] at hboth
    exact runes_before_blank hboth (r.stops x (by rw [hafter]; rfl))

end Run

/-- If no run goes on across a place, the first one behind it starts behind white space. -/
theorem blank_of_cut {pre gap word after : List Rune}
    (hcut : ∀ a ∈ pre.getLast?, ∀ b ∈ (gap ++ (word ++ after)).head?,
      isBlank a.code = true ∨ isBlank b.code = true)
    (hgap : AllBlank gap) (hne : word ≠ []) (hword : NoBlank word) :
    ∀ r ∈ (pre ++ gap).getLast?, isBlank r.code = true := by
  intro r hr
  rw [List.getLast?_append] at hr
  cases hlast : gap.getLast? with
  | some x =>
    rw [hlast, Option.some_or] at hr
    obtain rfl := Option.some.inj hr
    exact hgap _ (List.mem_of_getLast? hlast)
  | none =>
    rw [hlast, Option.none_or] at hr
    obtain rfl := List.getLast?_eq_none_iff.mp hlast
    cases word with
    | nil => exact absurd rfl hne
    | cons x word =>
      rcases hcut r hr x rfl with h | h
      · exact h
      · rw [hword x List.mem_cons_self] at h
        cases h

/-- The first token of the rest of a text, with its line. -/
theorem tokensOf_first {text : Bytes} {pre gap word after : List Rune}
    (hsplit : runes text = pre ++ (gap ++ (word ++ after))) (hgap : AllBlank gap)
    (hword : NoBlank word) (hne : word.flatMap Rune.bytes ≠ []) (hafter : StopsAt after) :
    tokensOf (1 + (pre.flatMap Rune.bytes).count 0x0a) (gap ++ (word ++ after)) =
      ⟨1 + ((pre ++ gap).flatMap Rune.bytes).count 0x0a, word.flatMap Rune.bytes⟩ ::
        tokensOf (1 + ((pre ++ gap ++ word).flatMap Rune.bytes).count 0x0a) after := by
  have hin : ∀ r ∈ gap ++ word, r ∈ runes text := by
    intro r hr
    rw [hsplit]
    simp only [List.mem_append] at hr ⊢
    tauto
  have hgapFeeds : (gap.flatMap Rune.bytes).count 0x0a = gap.countP fun r => r.code == lineFeed :=
    count_lineFeed fun r hr => hin r (by simp [hr])
  have hwordFeeds : (word.flatMap Rune.bytes).count 0x0a = 0 := by
    rw [count_lineFeed fun r hr => hin r (by simp [hr]), List.countP_eq_zero]
    intro r hr hfeed
    have := hword r hr
    rw [beq_iff_eq.mp hfeed] at this
    cases this
  have hline : 1 + ((pre ++ gap).flatMap Rune.bytes).count 0x0a =
      1 + (pre.flatMap Rune.bytes).count 0x0a + gap.countP fun r => r.code == lineFeed := by
    rw [List.flatMap_append, List.count_append, hgapFeeds]
    omega
  have hsum : ((pre ++ gap ++ word).flatMap Rune.bytes).count 0x0a =
      ((pre ++ gap).flatMap Rune.bytes).count 0x0a := by
    rw [List.flatMap_append, List.count_append, hwordFeeds, Nat.add_zero]
  rw [tokensOf_blank hgap, ← hline, tokensOf_word hword hne hafter, hsum]

/-- The runs of a text from some place on, if no run goes on across that place. -/
theorem exists_runs {text : Bytes} (n : Nat) (pre rs : List Rune) (hn : rs.length = n)
    (hsplit : runes text = pre ++ rs)
    (hcut : ∀ a ∈ pre.getLast?, ∀ b ∈ rs.head?, isBlank a.code = true ∨ isBlank b.code = true) :
    ∃ runs : List (Run text), (∀ r, r ∈ runs ↔ pre.length ≤ r.before.length) ∧
      runs.Pairwise (fun r r' => r.before.length < r'.before.length) ∧
      tokensOf (1 + (pre.flatMap Rune.bytes).count 0x0a) rs = runs.map Run.token := by
  induction n using Nat.strong_induction_on generalizing pre rs with
  | _ n ih =>
    rcases allBlank_or_split rs with hblank | ⟨gap, word, after, rfl, hgap, hne, hword, hafter⟩
    · refine ⟨[], ?_, .nil, ?_⟩
      · intro r
        simp only [List.not_mem_nil, false_iff]
        intro hle
        have hend := r.not_in_blank (by rw [hsplit, List.append_nil]) hblank hle
        obtain ⟨x, hx, -⟩ := r.exists_first
        rw [hsplit, List.getElem?_eq_none hend] at hx
        cases hx
      · rw [← List.append_nil rs, tokensOf_blank hblank]
        rfl
    · have hpos : 0 < word.length := List.length_pos_iff.mpr hne
      let first : Run text := ⟨pre ++ gap, word, after, by rw [hsplit, List.append_assoc], hne, hword,
        blank_of_cut hcut hgap hne hword, hafter⟩
      simp only [List.length_append] at hn
      obtain ⟨runs, hmem, hpair, htokens⟩ := ih after.length (by omega) (pre ++ gap ++ word) after
        rfl (by rw [hsplit]; simp) (fun _ _ b hb => .inr (hafter b hb))
      refine ⟨first :: runs, ?_, ?_, ?_⟩
      · intro r
        rw [List.mem_cons, hmem]
        constructor
        · rintro (rfl | hle)
          · simp [first]
          · simp only [List.length_append] at hle
            omega
        · intro hle
          rcases Nat.eq_or_lt_of_le (r.not_in_blank hsplit hgap hle) with heq | hlt
          · exact .inl (Run.ext_of_length heq.symm)
          · exact .inr (r.not_in_word first.split hword hlt)
      · refine List.pairwise_cons.mpr ⟨?_, hpair⟩
        intro r hr
        have := (hmem r).mp hr
        rw [List.length_append] at this
        show (pre ++ gap).length < _
        omega
      · rw [tokensOf_first hsplit hgap hword first.bytes_ne_nil hafter, htokens]
        rfl

theorem tokenized_iff {text : Bytes} {ts : List Token} :
    Tokenized text ts ↔ ts = tokens text := by
  obtain ⟨runs, hmem, hpair, htokens⟩ :=
    exists_runs _ [] (runes text) rfl (List.nil_append (runes text)).symm (by simp)
  have hall : ∀ r, r ∈ runs := fun r => (hmem r).mpr (Nat.zero_le _)
  have htokens : tokens text = runs.map Run.token := htokens
  constructor
  · rintro ⟨runs', hall', hpair', rfl⟩
    have hnodup : ∀ {l : List (Run text)},
        l.Pairwise (fun r r' => r.before.length < r'.before.length) → l.Nodup := by
      intro l h
      exact h.imp fun hlt heq => absurd hlt (by rw [heq]; exact Nat.lt_irrefl _)
    have hperm : runs'.Perm runs :=
      (List.perm_ext_iff_of_nodup (hnodup hpair') (hnodup hpair)).mpr
        fun r => ⟨fun _ => hall r, fun _ => hall' r⟩
    rw [htokens, hperm.eq_of_pairwise (fun a b _ _ h h' => absurd h (Nat.lt_asymm h')) hpair' hpair]
  · rintro rfl
    exact ⟨runs, hall, hpair, htokens⟩

/-! ## Tokens read alone -/

/-- A string that holds no white space. -/
def Solid (s : Bytes) : Prop := NoBlank (runes s)

theorem solid_of_mem_tokens {text : Bytes} {t : Token} (h : t ∈ tokens text) :
    t.bytes ≠ [] ∧ Solid t.bytes := by
  obtain ⟨runs, -, -, hruns⟩ := tokenized_iff.mpr (rfl : tokens text = tokens text)
  rw [hruns] at h
  obtain ⟨r, -, rfl⟩ := List.mem_map.mp h
  refine ⟨r.bytes_ne_nil, ?_⟩
  show NoBlank (runes (r.word.flatMap Rune.bytes))
  rw [r.runes_bytes]
  exact r.noBlank

theorem solid_append {c : UInt8} (hc : Rune.isContinuation c = false) {s t : Bytes} :
    Solid (s ++ c :: t) ↔ Solid s ∧ Solid (c :: t) := by
  rw [Solid, runes_append hc, NoBlank, List.forall_mem_append]
  exact Iff.rfl

theorem solid_cons {b : UInt8} (hb : b < 0x80) {s : Bytes} :
    Solid (b :: s) ↔ isBlank b.toNat = false ∧ Solid s := by
  rw [Solid, runes_ascii hb, NoBlank, List.forall_mem_cons]
  exact Iff.rfl

/-- White space of one byte ends a word. -/
theorem tokensOf_solid {w t : Bytes} {c : UInt8} (hne : w ≠ []) (hw : Solid w) (hc : c < 0x80)
    (hblank : isBlank c.toNat = true) (line : Nat) :
    tokensOf line (runes (w ++ c :: t)) = ⟨line, w⟩ :: tokensOf line (runes (c :: t)) := by
  have hcont : Rune.isContinuation c = false := by
    simp only [Rune.isContinuation, Bool.and_eq_false_iff, decide_eq_false_iff_not]
    exact .inl (UInt8.not_le.mpr hc)
  have hstops : StopsAt (runes (c :: t)) := by
    intro r hr
    rw [runes_ascii hc] at hr
    obtain rfl := Option.some.inj hr
    exact hblank
  rw [runes_append hcont, tokensOf_word hw (by rwa [bytes_runes]) hstops, bytes_runes]

theorem tokensOf_space (line : Nat) (s : Bytes) :
    tokensOf line (runes (0x20 :: s)) = tokensOf line (runes s) := by
  rw [runes_ascii (by decide)]
  have hblank : AllBlank [⟨(0x20 : UInt8).toNat, [0x20]⟩] := by
    intro r hr
    rw [List.mem_singleton.mp hr]
    decide
  exact tokensOf_blank hblank line (runes s)

theorem tokensOf_lineFeed (line : Nat) (s : Bytes) :
    tokensOf line (runes (0x0a :: s)) = tokensOf (line + 1) (runes s) := by
  rw [runes_ascii (by decide)]
  have hblank : AllBlank [⟨(0x0a : UInt8).toNat, [0x0a]⟩] := by
    intro r hr
    rw [List.mem_singleton.mp hr]
    decide
  exact tokensOf_blank hblank line (runes s)

theorem tokensOf_line {w : Bytes} {ws : List Bytes} (h : ∀ x ∈ w :: ws, x ≠ [] ∧ Solid x)
    (line : Nat) (rest : Bytes) :
    tokensOf line (runes (w ++ (ws.flatMap (0x20 :: ·) ++ 0x0a :: rest))) =
      (w :: ws).map (Token.mk line) ++ tokensOf (line + 1) (runes rest) := by
  induction ws generalizing w with
  | nil =>
    obtain ⟨hne, hw⟩ := h w List.mem_cons_self
    rw [List.flatMap_nil, List.nil_append, tokensOf_solid hne hw (by decide) (by decide),
      tokensOf_lineFeed]
    rfl
  | cons w' ws ih =>
    rw [List.forall_mem_cons] at h
    obtain ⟨⟨hne, hw⟩, h⟩ := h
    rw [List.flatMap_cons, List.cons_append, List.cons_append, List.append_assoc,
      tokensOf_solid hne hw (by decide) (by decide), tokensOf_space, ih h]
    rfl

/-- A byte that is an ASCII character and no white space. -/
def isGraphic (b : UInt8) : Bool := 0x21 ≤ b && b < 0x7f

theorem solid_of_graphic {s : Bytes} (h : ∀ b ∈ s, isGraphic b = true) : Solid s := by
  induction s with
  | nil =>
    intro r hr
    cases hr
  | cons b s ih =>
    rw [List.forall_mem_cons] at h
    obtain ⟨hlow, hhigh⟩ := Bool.and_eq_true_iff.mp h.1
    simp only [decide_eq_true_eq, UInt8.le_iff_toNat_le, UInt8.lt_iff_toNat_lt,
      UInt8.reduceToNat] at hlow hhigh
    have hascii : b < 0x80 := by
      rw [UInt8.lt_iff_toNat_lt]
      exact Nat.lt_trans hhigh (by decide)
    refine (solid_cons hascii).mpr ⟨?_, ih h.2⟩
    simp only [isBlank, Bool.or_eq_false_iff, Bool.and_eq_false_iff, decide_eq_false_iff_not,
      beq_eq_false_iff_ne]
    omega

/-! ## Fields -/

namespace Token

theorem map_bytes_close {done done' : List Token} (h : done.map bytes = done'.map bytes)
    (line line' : Nat) (current : Bytes) :
    (Scan.close ⟨line, current, done⟩).map bytes =
      (Scan.close ⟨line', current, done'⟩).map bytes := by
  unfold Scan.close
  split <;> simp [h]

theorem map_bytes_close_foldl (rs : List Rune) {done done' : List Token}
    (h : done.map bytes = done'.map bytes) (line line' : Nat) (current : Bytes) :
    (rs.foldl Scan.step ⟨line, current, done⟩).close.map bytes =
      (rs.foldl Scan.step ⟨line', current, done'⟩).close.map bytes := by
  induction rs generalizing line line' current done done' with
  | nil => exact map_bytes_close h line line' current
  | cons r rs ih =>
    rw [List.foldl_cons, List.foldl_cons]
    by_cases hr : isBlank r.code = true
    · simp only [Scan.step, hr, if_true]
      exact ih (map_bytes_close h line line' current) _ _ _
    · simp only [Scan.step, hr, if_false, Bool.false_eq_true]
      exact ih h _ _ _

end Token

/-- What a token holds does not depend on the line it stands on. -/
theorem map_bytes_tokensOf (line : Nat) (rs : List Rune) :
    (tokensOf line rs).map Token.bytes = (tokensOf 1 rs).map Token.bytes := by
  rw [tokensOf, tokensOf, List.map_reverse, List.map_reverse,
    Token.map_bytes_close_foldl rs rfl line 1 []]

theorem fields_append_space (s t : Bytes) : fields (s ++ 0x20 :: t) = fields s ++ fields t := by
  have hblank : isBlank (0x20 : UInt8).toNat = true := rfl
  rw [fields, tokens, runes_append (by decide), runes_ascii (by decide)]
  simp only [tokensOf, List.foldl_append, List.foldl_cons, Token.Scan.step, hblank, if_true]
  rw [Token.close_foldl, List.reverse_append, List.map_append]
  congr 1
  exact map_bytes_tokensOf _ (runes t)

/-! ## How many tokens there are -/

theorem Token.length_close_foldl_le (rs : List Rune) (s : Scan) :
    (rs.foldl Scan.step s).close.length ≤ s.close.length + rs.length := by
  induction rs generalizing s with
  | nil => exact Nat.le_refl _
  | cons r rs ih =>
    have hstep : (s.step r).close.length ≤ s.close.length + 1 := by
      have hclose : s.done.length ≤ s.close.length := by
        unfold Scan.close
        split <;> simp
      unfold Scan.step
      split
      · exact Nat.le_succ _
      · unfold Scan.close at hclose ⊢
        dsimp only
        split
        · exact Nat.le_succ_of_le hclose
        · exact Nat.succ_le_succ hclose
    have := ih (s.step r)
    rw [List.foldl_cons, List.length_cons]
    omega

theorem length_fields_le (s : Bytes) : (fields s).length ≤ s.length := by
  calc (fields s).length = ((runes s).foldl Token.Scan.step ⟨1, [], []⟩).close.length := by
        rw [fields, List.length_map, tokens, tokensOf, List.length_reverse]
    _ ≤ 0 + (runes s).length := Token.length_close_foldl_le (runes s) ⟨1, [], []⟩
    _ ≤ s.length := by rw [Nat.zero_add]; exact length_runes_le s

end NetImage
