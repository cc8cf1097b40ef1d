import NetImage.Proofs.Graph.Reading
import NetImage.Proofs.Text.Pieces
import NetImage.Proofs.Text.Tokens

/-!
# NetImage.Proofs.Graph.Language

The graph language as a grammar over tokens, and the parser as its decision procedure.

* `Completes`: the words behind a head, one `Label=Value` for each field.
* `Graph`: a sequence of tokens is a sequence of declarations.
* `Parser.run_iff`: from any state, the parser accepts what the grammar allows there.
* `parseTokens_eq_ok`: the whole parser.
* `graph_relined`: lines only number the declarations.
-/

namespace NetImage

/-- The declaration as it would be on another line. -/
def Decl.atLine (line : Int) : Decl → Decl
  | .input d => .input { d with line := line }
  | .const d => .const { d with line := line }
  | .op d => .op { d with line := line }

@[simp] theorem Decl.line_atLine (line : Int) (d : Decl) : (d.atLine line).line = line := by
  cases d <;> rfl

@[simp] theorem Decl.atLine_atLine (line line' : Int) (d : Decl) :
    (d.atLine line).atLine line' = d.atLine line' := by
  cases d <;> rfl

/-- The word is a label, an equals sign and a value. The first equals sign ends the label. -/
structure Binds (word label value : Bytes) : Prop where
  eq : word = label ++ 0x3d :: value
  first : 0x3d ∉ label

/-- The words give each of the fields a value, in order, and `next` makes `d` of the values. -/
def Completes (d : Decl) :
    (fields : List Field) → FromFields (Except CountError Decl) fields → List Bytes → Prop
  | [], made, words => words = [] ∧ made = .ok d
  | field :: fields, next, words => ∃ word rest value v, words = word :: rest ∧
      Binds word field.label value ∧ field.kind.read value = .ok v ∧
      Completes d fields (next v) rest

/-- The tokens are declarations one after the other, each a head and its fields. -/
inductive Graph : List Token → List Decl → Prop
  | nil : Graph [] []
  | cons {head : Head} {t : Token} {fields ts : List Token} {d : Decl} {ds : List Decl}
      (hhead : t.bytes = head.name)
      (hfields : Completes d head.fields (head.build t.line) (fields.map Token.bytes))
      (hline : d.line = t.line) (hrest : Graph ts ds) :
      Graph (t :: (fields ++ ts)) (d :: ds)

/-! ## Heads and fields -/

theorem Head.ofName?_eq_some {s : Bytes} {h : Head} : ofName? s = some h ↔ s = h.name := by
  constructor
  · intro hfound
    have := List.find?_some hfound
    exact (beq_iff_eq.mp this).symm
  · rintro rfl
    cases h <;> decide

theorem binds_iff {word label value : Bytes} :
    Binds word label value ↔ word.cut 0x3d = some (label, value) := by
  rw [Bytes.cut_eq_some]
  exact ⟨fun h => ⟨h.eq, h.first⟩, fun h => ⟨h.1, h.2⟩⟩

/-! ## Lines -/

/-- A function of the values of fields, followed by another. -/
def FromFields.map {α β : Type} (f : α → β) :
    (fields : List Field) → FromFields α fields → FromFields β fields
  | [], a => f a
  | _ :: fields, next => fun v => map f fields (next v)

theorem Head.build_atLine (line line' : Int) (h : Head) :
    h.build line' = FromFields.map (Except.map (Decl.atLine line')) h.fields (h.build line) := by
  cases h
  case const =>
    funext tensor type dims data
    cases data with
    | file path => rfl
    | inline values =>
      simp only [FromFields.map, build, const_]
      split <;> rfl
  all_goals rfl

theorem Completes.map {fields : List Field} {next : FromFields (Except CountError Decl) fields}
    {words : List Bytes} {d : Decl} (h : Completes d fields next words) (f : Decl → Decl) :
    Completes (f d) fields (FromFields.map (Except.map f) fields next) words := by
  induction fields generalizing words with
  | nil =>
    obtain ⟨rfl, rfl⟩ := h
    exact ⟨rfl, rfl⟩
  | cons field fields ih =>
    obtain ⟨word, rest, value, v, rfl, hword, hread, h⟩ := h
    exact ⟨word, rest, value, v, rfl, hword, hread, ih h⟩

theorem Completes.relined {h : Head} {line : Int} {words : List Bytes} {d : Decl}
    (hd : Completes d h.fields (h.build line) words) (line' : Int) :
    Completes (d.atLine line') h.fields (h.build line') words := by
  rw [h.build_atLine line line']
  exact hd.map _

theorem Completes.unique {fields : List Field} {next : FromFields (Except CountError Decl) fields}
    {words : List Bytes} {d d' : Decl} (h : Completes d fields next words)
    (h' : Completes d' fields next words) : d = d' := by
  induction fields generalizing words with
  | nil => exact Except.ok.inj (h.2.symm.trans h'.2)
  | cons field fields ih =>
    obtain ⟨word, rest, value, v, rfl, hword, hread, h⟩ := h
    obtain ⟨_, _, value', v', hwords, hword', hread', h'⟩ := h'
    cases hwords
    cases (binds_iff.mp hword).symm.trans (binds_iff.mp hword')
    cases hread.symm.trans hread'
    exact ih h h'

theorem Completes.line_eq {h : Head} {line : Int} {words : List Bytes} {d : Decl}
    (hd : Completes d h.fields (h.build line) words) : d.line = line := by
  rw [hd.unique (hd.relined line), Decl.line_atLine]

/-! ## The parser -/

theorem graph_cons_iff {t : Token} {ts : List Token} {ds : List Decl} :
    Graph (t :: ts) ds ↔ ∃ (head : Head) (fields rest : List Token) (d : Decl) (ds' : List Decl),
      t.bytes = head.name ∧ ts = fields ++ rest ∧ ds = d :: ds' ∧
      Completes d head.fields (head.build t.line) (fields.map Token.bytes) ∧ Graph rest ds' := by
  constructor
  · intro h
    cases h with
    | cons hhead hfields _ hrest => exact ⟨_, _, _, _, _, hhead, rfl, rfl, hfields, hrest⟩
  · rintro ⟨head, fields, rest, d, ds', hhead, rfl, rfl, hfields, hrest⟩
    exact .cons hhead hfields hfields.line_eq hrest

namespace Parser

/-- What may follow where a declaration is begun or not. -/
def Awaits : Option Pending → List Token → List Decl → Prop
  | none, ts, ds => Graph ts ds
  | some p, ts, ds => ∃ (fields rest : List Token) (d : Decl) (ds' : List Decl),
      ts = fields ++ rest ∧ ds = d :: ds' ∧
      Completes d (p.field :: p.rest) p.next (fields.map Token.bytes) ∧ Graph rest ds'

/-- The declarations `ds` are those read and those that the tokens to come make. -/
def Leads (s : State) (ts : List Token) (ds : List Decl) : Prop :=
  ∃ ds', ds = s.done.reverse ++ ds' ∧ Awaits s.pending ts ds'

theorem advance_leads {done : List Decl} {line : Nat} {fields : List Field}
    {next : FromFields (Except CountError Decl) fields} {ts : List Token} {ds : List Decl} :
    (∃ s, advance done line fields next = .ok s ∧ Leads s ts ds) ↔
      ∃ (words rest : List Token) (d : Decl) (ds' : List Decl), ts = words ++ rest ∧
        ds = done.reverse ++ d :: ds' ∧ Completes d fields next (words.map Token.bytes) ∧
        Graph rest ds' := by
  cases fields with
  | nil =>
    constructor
    · rintro ⟨s, hs, ds', rfl, hgraph⟩
      cases next with
      | error e => cases hs
      | ok d =>
        cases hs
        exact ⟨[], ts, d, ds', rfl, by simp, ⟨rfl, rfl⟩, hgraph⟩
    · rintro ⟨words, rest, d, ds', rfl, rfl, ⟨hwords, rfl⟩, hgraph⟩
      rw [List.map_eq_nil_iff.mp hwords]
      exact ⟨_, rfl, ds', by simp, hgraph⟩
  | cons field fields =>
    constructor
    · rintro ⟨s, hs, ds', rfl, h⟩
      cases hs
      obtain ⟨words, rest, d, ds', rfl, rfl, hwords, hgraph⟩ := h
      exact ⟨words, rest, d, ds', rfl, rfl, hwords, hgraph⟩
    · rintro ⟨words, rest, d, ds', rfl, rfl, hwords, hgraph⟩
      exact ⟨_, rfl, _, rfl, words, rest, d, ds', rfl, rfl, hwords, hgraph⟩

/-- One token further is one token less that may follow. -/
theorem step_leads {s : State} {t : Token} {ts : List Token} {ds : List Decl} :
    (∃ s', step s t = .ok s' ∧ Leads s' ts ds) ↔ Leads s (t :: ts) ds := by
  obtain ⟨done, pending⟩ := s
  cases pending with
  | none =>
    constructor
    · rintro ⟨s', hstep, h⟩
      cases hhead : Head.ofName? t.bytes with
      | none => simp [step, hhead] at hstep
      | some head =>
        simp only [step, hhead] at hstep
        obtain ⟨words, rest, d, ds', rfl, rfl, hwords, hgraph⟩ := advance_leads.mp ⟨s', hstep, h⟩
        refine ⟨_, rfl, graph_cons_iff.mpr ?_⟩
        exact ⟨head, words, rest, d, ds', Head.ofName?_eq_some.mp hhead, rfl, rfl, hwords, hgraph⟩
    · rintro ⟨_, rfl, h⟩
      obtain ⟨head, words, rest, d, ds', hhead, rfl, rfl, hwords, hgraph⟩ := graph_cons_iff.mp h
      simp only [step, Head.ofName?_eq_some.mpr hhead]
      exact advance_leads.mpr ⟨words, rest, d, ds', rfl, rfl, hwords, hgraph⟩
  | some p =>
    constructor
    · rintro ⟨s', hstep, h⟩
      cases hcut : t.bytes.cut 0x3d with
      | none => simp [step, hcut] at hstep
      | some parts =>
        obtain ⟨label, value⟩ := parts
        simp only [step, hcut] at hstep
        split at hstep
        · rename_i hlabel
          subst hlabel
          cases hread : p.field.kind.read value with
          | error e => simp [hread] at hstep
          | ok v =>
            simp only [hread] at hstep
            obtain ⟨words, rest, d, ds', rfl, rfl, hwords, hgraph⟩ :=
              advance_leads.mp ⟨s', hstep, h⟩
            refine ⟨_, rfl, t :: words, rest, d, ds', rfl, rfl, ?_, hgraph⟩
            exact ⟨_, _, value, v, rfl, binds_iff.mpr hcut, hread, hwords⟩
        · cases hstep
    · rintro ⟨_, rfl, words, rest, d, ds', hts, rfl, hwords, hgraph⟩
      obtain ⟨word, words', value, v, hmap, hword, hread, hwords⟩ := hwords
      obtain ⟨t', words, rfl, rfl, rfl⟩ := List.map_eq_cons_iff.mp hmap
      obtain ⟨rfl, rfl⟩ := List.cons.inj hts
      simp only [step, binds_iff.mp hword, hread, if_true]
      exact advance_leads.mpr ⟨words, rest, d, ds', rfl, rfl, hwords, hgraph⟩

theorem run_iff {lastLine : Nat} {s : State} {ts : List Token} {ds : List Decl} :
    ts.foldlM step s >>= finish lastLine = .ok ds ↔ Leads s ts ds := by
  induction ts generalizing s with
  | nil =>
    obtain ⟨done, pending⟩ := s
    cases pending with
    | none =>
      constructor
      · intro h
        cases h
        exact ⟨[], by simp, .nil⟩
      · rintro ⟨ds', rfl, h⟩
        cases h
        simp [finish, bind, Except.bind, pure, Except.pure]
    | some p =>
      constructor
      · intro h
        cases h
      · rintro ⟨ds', rfl, words, rest, d, ds'', hnil, -, ⟨word, _, _, _, hmap, -⟩, -⟩
        obtain ⟨rfl, -⟩ := List.nil_eq_append_iff.mp hnil
        cases hmap
  | cons t ts ih =>
    rw [List.foldlM_cons, bind_assoc, bind_eq_ok, ← step_leads]
    simp only [ih]

end Parser

/-- The same words on other lines make the same declarations but for their lines. -/
theorem graph_relined {ts ts' : List Token} {ds : List Decl} (h : Graph ts ds)
    (hwords : ts'.map Token.bytes = ts.map Token.bytes) :
    ∃ ds', Graph ts' ds' ∧ ds'.map (Decl.atLine 0) = ds.map (Decl.atLine 0) := by
  induction h generalizing ts' with
  | nil =>
    rw [List.map_nil, List.map_eq_nil_iff] at hwords
    exact ⟨[], hwords ▸ .nil, rfl⟩
  | @cons head t fields ts d ds hhead hfields hline hrest ih =>
    rw [List.map_cons, List.map_append] at hwords
    obtain ⟨t', rest, rfl, hword, hrest'⟩ := List.map_eq_cons_iff.mp hwords
    obtain ⟨fields', ts'', rfl, hfields', hts⟩ := List.map_eq_append_iff.mp hrest'
    obtain ⟨ds', hgraph, hds⟩ := ih hts
    refine ⟨d.atLine t'.line :: ds', ?_, by simp [hds]⟩
    refine .cons (hword.trans hhead) ?_ (Decl.line_atLine _ _) hgraph
    rw [hfields']
    exact hfields.relined t'.line

theorem parseTokens_eq_ok {lastLine : Nat} {ts : List Token} {ds : List Decl} :
    parseTokens lastLine ts = .ok ds ↔ Graph ts ds := by
  rw [parseTokens, Parser.run_iff]
  constructor
  · rintro ⟨ds', rfl, h⟩
    exact h
  · intro h
    exact ⟨ds, rfl, h⟩

theorem parse_of_getLast? {text : Bytes} (hlast : text.getLast? = some 0x0a) {ds : List Decl} :
    parse text = .ok ds ↔ Graph (tokens text) ds := by
  rw [← parseTokens_eq_ok, parse, hlast]
  rfl

/-- Texts that end a line and have the same words are accepted alike. -/
theorem parse_relined {text text' : Bytes} (hlast : text.getLast? = some 0x0a)
    (hlast' : text'.getLast? = some 0x0a)
    (hwords : (tokens text').map Token.bytes = (tokens text).map Token.bytes) {ds : List Decl}
    (h : parse text = .ok ds) :
    ∃ ds', parse text' = .ok ds' ∧ ds'.map (Decl.atLine 0) = ds.map (Decl.atLine 0) := by
  obtain ⟨ds', hgraph, hds⟩ := graph_relined ((parse_of_getLast? hlast).mp h) hwords
  exact ⟨ds', (parse_of_getLast? hlast').mpr hgraph, hds⟩

/-- **The parser accepts the graph language.** A text is accepted if and only if it is empty, or it
ends a line and its tokens are declarations; these are the result, each with the line of its head. Two
texts that end a line and have the same words differ at most in the lines. -/
theorem parse_eq_ok_iff_graph (text : Bytes) :
    (∀ ds, parse text = .ok ds ↔ text = [] ∧ ds = [] ∨
      text.getLast? = some 0x0a ∧ ∃ ts, Tokenized text ts ∧ Graph ts ds) ∧
    ∀ text' ts ts', text.getLast? = some 0x0a → text'.getLast? = some 0x0a →
      Tokenized text ts → Tokenized text' ts' → ts.map Token.bytes = ts'.map Token.bytes →
      (parse text).toOption.map (List.map (Decl.atLine 0)) =
        (parse text').toOption.map (List.map (Decl.atLine 0)) := by
  refine ⟨?_, ?_⟩
  · intro ds
    cases hlast : text.getLast? with
    | none =>
      obtain rfl := List.getLast?_eq_none_iff.mp hlast
      simp only [reduceCtorEq, false_and, or_false, true_and]
      exact ⟨fun h => (Except.ok.inj h).symm, fun h => h ▸ rfl⟩
    | some last =>
      have hne : text ≠ [] := by
        rintro rfl
        cases hlast
      by_cases hfeed : last = 0x0a
      · subst hfeed
        rw [parse_of_getLast? hlast]
        simp [hne, tokenized_iff]
      · simp [parse, hlast, hne, hfeed]
  · intro text' ts ts' hlast hlast' hts hts' hwords
    rw [tokenized_iff.mp hts, tokenized_iff.mp hts'] at hwords
    cases hparse : parse text with
    | ok ds =>
      obtain ⟨ds', hparse', hds⟩ := parse_relined hlast hlast' hwords.symm hparse
      simp [hparse', hds, Except.toOption]
    | error e =>
      cases hparse' : parse text' with
      | error e' => rfl
      | ok ds' =>
        obtain ⟨ds, hok, -⟩ := parse_relined hlast' hlast hwords hparse'
        cases hparse.symm.trans hok

/-- Four declarations on six lines, two of them with lists, with a no-break space and a byte that
cannot be read. -/
def looseText : Bytes :=
  ascii "\nConst ToTensor=k\tType=Float\n Dims=2x3 Data=@w=" ++ [0xff, 0xc2, 0xa0]
    ++ ascii "Relu Name=r:1\nFromTensor=k ToTensor=y Concat Name=c FromTensors=k,y"
    ++ ascii "\nToTensor=z Axis=-1 Squeeze Name=s\nFromTensor=z ToTensor=v Axes=0,-1\n"

/-- The same words, a line for each declaration. -/
def plainText : Bytes :=
  ascii "Const ToTensor=k Type=Float Dims=2x3 Data=@w=" ++ [0xff]
    ++ ascii "\nRelu Name=r:1 FromTensor=k ToTensor=y\nConcat Name=c FromTensors=k,y ToTensor=z"
    ++ ascii " Axis=-1\nSqueeze Name=s FromTensor=z ToTensor=v Axes=0,-1\n"

def looseDecls : List Decl :=
  [.const ⟨2, ascii "k", .float, [2, 3], .file (ascii "w=" ++ [0xff])⟩,
   .op ⟨3, ascii "r:1", .plain .relu [ascii "k"] [ascii "y"]⟩,
   .op ⟨4, ascii "c", .concat [ascii "k", ascii "y"] (ascii "z") (-1)⟩,
   .op ⟨5, ascii "s", .squeeze (ascii "z") (ascii "v") [0, -1]⟩]

theorem looseText_graph :
    (∃ ts, Tokenized looseText ts ∧ Graph ts looseDecls) ∧
      (parse looseText).toOption.map (List.map (Decl.atLine 0)) =
        (parse plainText).toOption.map (List.map (Decl.atLine 0)) := by
  have hlast : looseText.getLast? = some 0x0a := by decide +kernel
  have hlast' : plainText.getLast? = some 0x0a := by decide +kernel
  have hparse : parse looseText = .ok looseDecls := by decide +kernel
  have hwords : (tokens looseText).map Token.bytes = (tokens plainText).map Token.bytes := by
    decide +kernel
  refine ⟨?_, ?_⟩
  · rcases ((parse_eq_ok_iff_graph looseText).1 looseDecls).mp hparse with ⟨-, hnil⟩ | ⟨-, h⟩
    · cases hnil
    · exact h
  · exact (parse_eq_ok_iff_graph looseText).2 plainText _ _ hlast hlast' (tokenized_iff.mpr rfl)
      (tokenized_iff.mpr rfl) hwords

end NetImage
