import NetImage.Proofs.Graph.Printing

/-!
# NetImage.Proofs.Graph.Writing

Lines that are written, one declaration each, are read as these declarations, also with more text
behind them.

* `FieldKind.Spells`: a text of a value.
* `Takes`: the texts of all values of a head, in order.
* `Says`: lines, and the declarations that they make.
* `says_line`, `Says.append`, `Says.parse`: one line, more lines, and a whole text.
-/

namespace NetImage

/-- ASCII without white space. -/
def Graphic (s : Bytes) : Prop := ∀ b ∈ s, isGraphic b = true

instance (s : Bytes) : Decidable (Graphic s) :=
  List.decidableBAll (fun b => isGraphic b = true) s

/-- A text that means the value and may stand in a line. -/
structure FieldKind.Spells (kind : FieldKind) (text : Bytes) (v : kind.Val) : Prop where
  read : kind.read text = .ok v
  graphic : Graphic text

theorem FieldKind.Canonical.spells {kind : FieldKind} {v : kind.Val} (h : kind.Canonical v) :
    kind.Spells (kind.write v) v :=
  ⟨h.read, h.graphic⟩

/-! ## Names -/

/-- A letter or underscore, then letters, digits and underscores. -/
def IsIdent (t : Bytes) : Prop := Pattern.ident.accepts t = true

instance (t : Bytes) : Decidable (IsIdent t) :=
  inferInstanceAs (Decidable (Pattern.ident.accepts t = true))

theorem isIdent_cons {b : UInt8} {s : Bytes} : IsIdent (b :: s) ↔
    (isLetter b = true ∨ b = 0x5f) ∧ ∀ c ∈ s, isLetter c = true ∨ isDigit c = true ∨ c = 0x5f := by
  simp [IsIdent, Pattern.accepts, Pattern.word, or_assoc]

theorem IsIdent.exists_cons {t : Bytes} (h : IsIdent t) : ∃ b s, t = b :: s := by
  cases t with
  | nil => cases h
  | cons b s => exact ⟨b, s, rfl⟩

theorem isGraphic_of_isLetter {b : UInt8} (h : isLetter b = true) : isGraphic b = true := by
  simp only [isLetter, isGraphic, Bool.or_eq_true, Bool.and_eq_true, decide_eq_true_eq,
    UInt8.le_iff_toNat_le, UInt8.lt_iff_toNat_lt, UInt8.reduceToNat] at h ⊢
  omega

theorem IsIdent.mem {t : Bytes} (h : IsIdent t) {b : UInt8} (hb : b ∈ t) :
    isLetter b = true ∨ isDigit b = true ∨ b = 0x5f := by
  obtain ⟨c, s, rfl⟩ := h.exists_cons
  obtain ⟨hfirst, hrest⟩ := isIdent_cons.mp h
  rcases List.mem_cons.mp hb with rfl | hb
  · exact hfirst.imp_right .inr
  · exact hrest b hb

theorem IsIdent.graphic {t : Bytes} (h : IsIdent t) : Graphic t := by
  intro b hb
  rcases h.mem hb with hb | hb | rfl
  · exact isGraphic_of_isLetter hb
  · exact FieldKind.isGraphic_of_isDigit hb
  · decide

theorem IsIdent.append_decimalNat {t : Bytes} (h : IsIdent t) (n : Nat) :
    IsIdent (t ++ decimalNat n) := by
  obtain ⟨b, s, rfl⟩ := h.exists_cons
  obtain ⟨hfirst, hrest⟩ := isIdent_cons.mp h
  refine isIdent_cons.mpr ⟨hfirst, ?_⟩
  intro c hc
  rcases List.mem_append.mp hc with hc | hc
  · exact hrest c hc
  · exact .inr (.inl (isDigit_of_mem_decimalNat n c hc))

namespace FieldKind

theorem spells_ident {t : Bytes} (h : IsIdent t) : ident.Spells t t :=
  ⟨checked_of_accepts h, h.graphic⟩

theorem spells_name {t : Bytes} (h : IsIdent t) : name.Spells t t := by
  refine ⟨checked_of_accepts ?_, h.graphic⟩
  obtain ⟨b, s, rfl⟩ := h.exists_cons
  obtain ⟨hfirst, hrest⟩ := isIdent_cons.mp h
  simp only [Pattern.accepts, Pattern.word, Bool.and_eq_true, Bool.or_eq_true, beq_iff_eq,
    List.all_eq_true]
  refine ⟨hfirst, ?_⟩
  intro c hc
  rcases hrest c hc with h | h | h
  · exact .inl (.inl (.inl h))
  · exact .inl (.inl (.inr h))
  · exact .inl (.inr h)

theorem spells_optIdent {t : Bytes} (h : IsIdent t) : optIdent.Spells t (some t) := by
  refine ⟨?_, h.graphic⟩
  have hdash : t ≠ [0x2d] := by
    rintro rfl
    revert h
    decide
  simp only [read, if_neg hdash, checked_of_accepts h]
  rfl

theorem readList_join {pattern : Pattern} (hempty : pattern.accepts [] = false) {ts : List Bytes}
    (hne : ts ≠ []) (hcomma : ∀ t ∈ ts, 0x2c ∉ t) (h : ∀ t ∈ ts, pattern.accepts t = true) :
    readList (checked pattern) (Bytes.join [0x2c] ts) = .ok ts := by
  have htext : Bytes.join [0x2c] ts ≠ [] := by
    refine Bytes.join_ne_nil hne ?_
    rintro t ht rfl
    rw [h [] ht] at hempty
    cases hempty
  rw [readList, if_neg (by simpa using htext), Bytes.split_join hcomma hne, mapM_eq_ok]
  exact List.forall₂_same.mpr fun t ht => checked_of_accepts (h t ht)

theorem graphic_join {ts : List Bytes} (h : ∀ t ∈ ts, Graphic t) : Graphic (Bytes.join [0x2c] ts) := by
  intro b hb
  rcases Bytes.mem_join hb with hb | ⟨t, ht, hb⟩
  · rw [List.mem_singleton.mp hb]
    decide
  · exact h t ht b hb

theorem spells_identList {ts : List Bytes} (hne : ts ≠ []) (h : ∀ t ∈ ts, IsIdent t) :
    identList.Spells (Bytes.join [0x2c] ts) ts := by
  have hcomma : ∀ t ∈ ts, 0x2c ∉ t := by
    intro t ht hmem
    rcases (h t ht).mem hmem with hb | hb | hb <;> revert hb <;> decide
  exact ⟨readList_join (by decide) hne hcomma h, graphic_join fun t ht => (h t ht).graphic⟩

/-! ## Numbers -/

theorem spells_size {n : Int64} (h : IsSize n) : size.Spells (decimal n.toInt) n :=
  ⟨readSize_decimal h, fun _ hb => isGraphic_of_mem_decimal hb⟩

theorem spells_int (n : Int64) : int.Spells (decimal n.toInt) n :=
  ⟨readSigned_decimal n, fun _ hb => isGraphic_of_mem_decimal hb⟩

end FieldKind

namespace Pattern

theorem isDigit_of_afterNat {s : Bytes} (h : afterNat s = some []) : ∀ b ∈ s, isDigit b = true := by
  unfold afterNat at h
  split at h
  · rw [Option.some.inj h]
    exact List.forall_mem_singleton.mpr (by decide)
  · rename_i b s _
    split at h
    · rename_i hb
      exact List.forall_mem_cons.mpr ⟨hb, List.dropWhile_eq_nil_iff.mp (Option.some.inj h)⟩
    · cases h
  · cases h

theorem mem_of_accepts_int {s : Bytes} (h : int.accepts s = true) {b : UInt8} (hb : b ∈ s) :
    isDigit b = true ∨ b = 0x2d := by
  have hdigits := isDigit_of_afterNat (beq_iff_eq.mp h)
  unfold unsigned at hdigits
  split at hdigits
  · rcases List.mem_cons.mp hb with rfl | hb
    · exact .inr rfl
    · exact .inl (hdigits b hb)
  · exact .inl (hdigits b hb)

end Pattern

/-- A number of digits with at most signs and points among them. -/
structure IsNumber (t : Bytes) : Prop where
  accepts : Pattern.float.accepts t = true
  bytes : ∀ b ∈ t, isDigit b = true ∨ b = 0x2d ∨ b = 0x2e

theorem IsNumber.graphic {t : Bytes} (h : IsNumber t) : Graphic t := by
  intro b hb
  rcases h.bytes b hb with hb | rfl | rfl
  · exact FieldKind.isGraphic_of_isDigit hb
  · decide
  · decide

theorem isNumber_decimal (n : Int) : IsNumber (decimal n) :=
  ⟨Pattern.accepts_float n, fun _ hb => (mem_decimal hb).imp_right .inl⟩

namespace FieldKind

theorem spells_data {ts : List Bytes} (hne : ts ≠ []) (h : ∀ t ∈ ts, IsNumber t) :
    data.Spells (Bytes.join [0x2c] ts) (.inline ts) := by
  have hcomma : ∀ t ∈ ts, 0x2c ∉ t := by
    intro t ht hmem
    rcases (h t ht).bytes _ hmem with hb | hb | hb <;> revert hb <;> decide
  refine ⟨?_, graphic_join fun t ht => (h t ht).graphic⟩
  show readData _ = _
  rw [readData, readList_join (by decide) hne hcomma fun t ht => (h t ht).accepts]
  · rfl
  · -- an at sign is neither a comma nor in a number
    intro path heq
    rcases Bytes.mem_join (show 0x40 ∈ Bytes.join [0x2c] ts by simp [heq]) with hb | ⟨t, ht, hb⟩
    · revert hb
      decide
    · rcases (h t ht).bytes _ hb with hb | hb | hb <;> revert hb <;> decide

theorem spells_elementType (t : ElementType) : elementType.Spells t.name t := by
  cases t <;> exact ⟨by decide, by decide⟩

theorem spells_autoPad (p : AutoPad) : autoPad.Spells p.name p := by
  cases p <;> exact ⟨by decide, by decide⟩

/-- Number texts and names that are read hold no white space. -/
theorem graphic_of_read {kind : FieldKind} {text : Bytes} {v : kind.Val}
    (hkind : kind = .optIdent ∨ kind = .intList ∨ kind = .autoPad) (h : kind.read text = .ok v) :
    Graphic text := by
  rcases hkind with rfl | rfl | rfl
  · simp only [read] at h
    split at h
    · rename_i hdash
      rw [hdash]
      decide
    · cases hident : checked .ident text with
      | error e => simp [hident, Functor.map, Except.map] at h
      | ok t => exact IsIdent.graphic (checked_eq_ok hident).2
  · have hpieces := readList_eq_ok h
    rw [← Bytes.join_split 0x2c text]
    refine graphic_join fun piece hpiece b hb => ?_
    obtain ⟨n, -, hn⟩ := exists_right_of_forall₂ (mapM_eq_ok.mp hpieces) hpiece
    obtain ⟨s, hs, -⟩ := bind_eq_ok.mp hn
    rcases Pattern.mem_of_accepts_int (checked_eq_ok hs).2 hb with hb | rfl
    · exact isGraphic_of_isDigit hb
    · decide
  · have hname := write_choice h
    rw [← hname]
    exact (spells_autoPad v).graphic

end FieldKind

/-! ## Lines -/

/-- The texts give each of the fields a value, in order, and `next` makes `d` of the values. -/
def Takes (d : Decl) :
    (fields : List Field) → FromFields (Except CountError Decl) fields → List Bytes → Prop
  | [], made, texts => texts = [] ∧ made = .ok d
  | field :: fields, next, texts => ∃ text rest v, texts = text :: rest ∧
      field.kind.Spells text v ∧ Takes d fields (next v) rest

theorem takes_nil (d : Decl) : Takes d [] (.ok d) [] := ⟨rfl, rfl⟩

theorem takes_cons {d : Decl} {field : Field} {fields : List Field}
    {next : FromFields (Except CountError Decl) (field :: fields)} {text : Bytes} {texts : List Bytes}
    {v : field.kind.Val} (htext : field.kind.Spells text v) (hrest : Takes d fields (next v) texts) :
    Takes d (field :: fields) next (text :: texts) :=
  ⟨text, texts, v, rfl, htext, hrest⟩

theorem Takes.completes {d : Decl} {fields : List Field}
    {next : FromFields (Except CountError Decl) fields} {texts : List Bytes}
    (h : Takes d fields next texts)
    (hlabels : ∀ f ∈ fields, 0x3d ∉ f.label ∧ Graphic f.label) :
    Completes d fields next (fieldWords fields texts) ∧
      ∀ w ∈ fieldWords fields texts, w ≠ [] ∧ Graphic w := by
  induction fields generalizing texts with
  | nil =>
    obtain ⟨rfl, hmade⟩ := h
    exact ⟨⟨rfl, hmade⟩, by simp [fieldWords]⟩
  | cons field fields ih =>
    obtain ⟨text, rest, v, rfl, hspells, h⟩ := h
    rw [List.forall_mem_cons] at hlabels
    obtain ⟨⟨hfirst, hlabel⟩, hlabels⟩ := hlabels
    obtain ⟨hcompletes, hwords⟩ := ih h hlabels
    refine ⟨⟨_, _, text, v, rfl, ⟨rfl, hfirst⟩, hspells.read, hcompletes⟩, ?_⟩
    refine List.forall_mem_cons.mpr ⟨⟨by simp, ?_⟩, hwords⟩
    intro b hb
    rcases List.mem_append.mp hb with hb | hb
    · exact hlabel b hb
    · rcases List.mem_cons.mp hb with rfl | hb
      · decide
      · exact hspells.graphic b hb

theorem Head.graphic_name (h : Head) : h.name ≠ [] ∧ Graphic h.name := by
  cases h <;> decide

theorem Head.graphic_labels (h : Head) : ∀ f ∈ h.fields, 0x3d ∉ f.label ∧ Graphic f.label := by
  cases h <;> decide +kernel

/-- A head and words on a line. -/
def lineText (head : Bytes) (words : List Bytes) : Bytes :=
  head ++ (words.flatMap (0x20 :: ·) ++ [0x0a])

/-- Lines that make declarations, one each, from the given line on, whatever follows. -/
structure Says (line : Nat) (text : Bytes) (ds : List Decl) : Prop where
  ended : ∀ b ∈ text.getLast?, b = 0x0a
  count : text.count 0x0a = ds.length
  lines : ∀ (i : Nat) (d : Decl), ds[i]? = some d → d.line = (line + i : Nat)
  graph : ∀ rest ds', Graph (tokensOf (line + ds.length) (runes rest)) ds' →
    Graph (tokensOf line (runes (text ++ rest))) (ds ++ ds')

theorem says_nil (line : Nat) : Says line [] [] :=
  ⟨by simp, rfl, by simp, fun _ _ h => h⟩

theorem count_lineText {head : Bytes} {words : List Bytes} (hhead : Graphic head)
    (hwords : ∀ w ∈ words, Graphic w) : (lineText head words).count 0x0a = 1 := by
  have hnone : ∀ {s : Bytes}, Graphic s → s.count 0x0a = 0 := by
    intro s hs
    refine List.count_eq_zero.mpr fun hmem => ?_
    have := hs _ hmem
    revert this
    decide
  have hmiddle : (words.flatMap (0x20 :: ·)).count 0x0a = 0 := by
    refine List.count_eq_zero.mpr fun hmem => ?_
    obtain ⟨w, hw, hmem⟩ := List.mem_flatMap.mp hmem
    rcases List.mem_cons.mp hmem with h | h
    · revert h
      decide
    · exact List.count_eq_zero.mp (hnone (hwords w hw)) h
  rw [lineText, List.count_append, List.count_append, hnone hhead, hmiddle]
  rfl

theorem says_line {head : Head} {line : Nat} {d : Decl} {texts : List Bytes}
    (h : Takes d head.fields (head.build line) texts) :
    Says line (lineText head.name (fieldWords head.fields texts)) [d] := by
  obtain ⟨hcompletes, hwords⟩ := h.completes head.graphic_labels
  refine ⟨?_, count_lineText head.graphic_name.2 fun w hw => (hwords w hw).2, ?_, ?_⟩
  · intro b hb
    rw [lineText, ← List.append_assoc, List.getLast?_concat] at hb
    exact (Option.some.inj hb).symm
  · intro i d' hd'
    obtain ⟨hi, rfl⟩ := List.getElem?_eq_some_iff.mp hd'
    obtain rfl : i = 0 := by simpa using hi
    exact hcompletes.line_eq
  · intro rest ds' hrest
    have hsolid : ∀ w ∈ head.name :: fieldWords head.fields texts, w ≠ [] ∧ Solid w :=
      List.forall_mem_cons.mpr ⟨⟨head.graphic_name.1, solid_of_graphic head.graphic_name.2⟩,
        fun w hw => ⟨(hwords w hw).1, solid_of_graphic (hwords w hw).2⟩⟩
    rw [lineText, List.append_assoc, List.append_assoc, List.singleton_append, tokensOf_line hsolid]
    refine .cons rfl ?_ hcompletes.line_eq hrest
    simpa [Function.comp_def] using hcompletes

theorem Says.append {line : Nat} {text text' : Bytes} {ds ds' : List Decl} (h : Says line text ds)
    (h' : Says (line + ds.length) text' ds') : Says line (text ++ text') (ds ++ ds') := by
  refine ⟨?_, ?_, ?_, ?_⟩
  · intro b hb
    rw [List.getLast?_append] at hb
    cases hend : text'.getLast? with
    | some c =>
      rw [hend, Option.some_or] at hb
      exact h'.ended b (hend.trans hb)
    | none =>
      rw [hend, Option.none_or] at hb
      exact h.ended b hb
  · rw [List.count_append, List.length_append, h.count, h'.count]
  · intro i d hd
    by_cases hi : i < ds.length
    · rw [List.getElem?_append_left hi] at hd
      exact h.lines i d hd
    · rw [List.getElem?_append_right (by omega)] at hd
      rw [h'.lines _ d hd]
      congr 1
      omega
  · intro rest ds'' hrest
    rw [List.append_assoc, List.append_assoc]
    refine h.graph _ _ (h'.graph _ _ ?_)
    rwa [List.length_append, ← Nat.add_assoc] at hrest

theorem Says.parse {text : Bytes} {ds : List Decl} (h : Says 1 text ds) : parse text = .ok ds := by
  have hgraph := h.graph [] [] .nil
  rw [List.append_nil, List.append_nil] at hgraph
  exact (parse_of_ended h.ended).mpr hgraph

end NetImage
