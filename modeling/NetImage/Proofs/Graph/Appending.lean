import NetImage.Proofs.Graph.Printing

/-!
# NetImage.Proofs.Graph.Appending

Two texts one behind the other. A text that is accepted ends its last line and its last declaration, so
what follows is read as it would be alone, a number of lines further down.

* `tokensOf_append`, `tokensOf_lowered`: the tokens of both texts.
* `Parser.step_lowered`: one token further, behind other declarations and further down.
* `Parser.run_lowered`: all tokens.
* `parse_behind`: the second text behind the first.
-/

namespace NetImage

/-! ## Further down -/

/-- The token `d` lines further down. -/
def Token.lowered (d : Nat) (t : Token) : Token := ⟨t.line + d, t.bytes⟩

/-- The declaration `d` lines further down. -/
def Decl.lowered (d : Nat) (x : Decl) : Decl := x.atLine (x.line + d)

/-- The error `d` lines further down. -/
def ParseError.lowered (d : Nat) : ParseError → ParseError
  | .noFinalNewline => .noFinalNewline
  | .unknownHead line => .unknownHead (line + d)
  | .expectedField line label sample => .expectedField (line + d) label sample
  | .badValue line label error => .badValue (line + d) label error
  | .badCount line error => .badCount (line + d) error

theorem Head.build_lowered (d : Nat) (line : Int) (h : Head) :
    h.build (line + d) =
      FromFields.map (Except.map (Decl.lowered d)) h.fields (h.build line) := by
  cases h
  case const =>
    funext tensor type dims data
    cases data with
    | file path => rfl
    | inline values =>
      simp only [FromFields.map, build, const_]
      split <;> rfl
  all_goals rfl

/-! ## Tokens -/

namespace Token

theorem step_lineFeed (s : Scan) {r : Rune} (hr : r.code = lineFeed) :
    s.step r = ⟨s.line + 1, [], s.close⟩ := by
  have hblank : isBlank lineFeed = true := by decide
  simp only [Scan.step, hr, hblank, if_true]

theorem line_foldl (rs : List Rune) (s : Scan) :
    (rs.foldl Scan.step s).line = s.line + rs.countP fun r => r.code == lineFeed := by
  induction rs generalizing s with
  | nil => rfl
  | cons r rs ih =>
    rw [List.foldl_cons, ih, List.countP_cons]
    by_cases hr : r.code = lineFeed
    · simp only [step_lineFeed s hr, hr, beq_self_eq_true, if_true]
      omega
    · by_cases hblank : isBlank r.code = true
      · simp [Scan.step, hr, hblank]
      · simp [Scan.step, hr, hblank]

/-- The scan `d` lines further down. -/
def Scan.lowered (d : Nat) (s : Scan) : Scan :=
  ⟨s.line + d, s.current, s.done.map (Token.lowered d)⟩

theorem close_lowered (d : Nat) (s : Scan) :
    (s.lowered d).close = s.close.map (Token.lowered d) := by
  unfold Scan.close
  split <;> rename_i h
  · rw [if_pos (show s.current.isEmpty = true from h)]
    rfl
  · rw [if_neg (show ¬ s.current.isEmpty = true from h)]
    rfl

theorem step_lowered (d : Nat) (s : Scan) (r : Rune) :
    (s.lowered d).step r = (s.step r).lowered d := by
  unfold Scan.step
  by_cases hblank : isBlank r.code = true
  · rw [if_pos hblank, if_pos hblank, close_lowered]
    by_cases hr : r.code = lineFeed
    · simp [Scan.lowered, hr, Nat.add_right_comm]
    · simp [Scan.lowered, hr]
  · rw [if_neg hblank, if_neg hblank]
    rfl

theorem foldl_lowered (d : Nat) (rs : List Rune) (s : Scan) :
    rs.foldl Scan.step (s.lowered d) = (rs.foldl Scan.step s).lowered d := by
  induction rs generalizing s with
  | nil => rfl
  | cons r rs ih => rw [List.foldl_cons, List.foldl_cons, step_lowered, ih]

end Token

theorem tokensOf_lowered (d line : Nat) (rs : List Rune) :
    tokensOf (line + d) rs = (tokensOf line rs).map (Token.lowered d) := by
  have hstart : (⟨line + d, [], []⟩ : Token.Scan) = (⟨line, [], []⟩ : Token.Scan).lowered d := rfl
  rw [tokensOf, tokensOf, hstart, Token.foldl_lowered, Token.close_lowered, List.map_reverse]

/-- A line break ends the run before it, and what follows starts anew. -/
theorem tokensOf_append_lineFeed (line : Nat) (rs rs' : List Rune) {r : Rune}
    (hr : r.code = lineFeed) :
    tokensOf line (rs ++ r :: rs') =
      tokensOf line rs ++ tokensOf (line + (rs.countP fun r => r.code == lineFeed) + 1) rs' := by
  simp only [tokensOf, List.foldl_append, List.foldl_cons]
  rw [Token.step_lineFeed _ hr, Token.close_foldl, List.reverse_append, Token.line_foldl]

/-- The tokens of a text behind one that ends its last line. -/
theorem tokensOf_append {first : Bytes} (hlast : first.getLast? = some 0x0a) (line : Nat)
    (second : Bytes) :
    tokensOf line (runes (first ++ second)) =
      tokensOf line (runes first) ++
        (tokensOf line (runes second)).map (Token.lowered (first.count 0x0a)) := by
  obtain ⟨s, rfl⟩ := List.getLast?_eq_some_iff.mp hlast
  have hfeed : ∀ t : Bytes, runes (s ++ 0x0a :: t) = runes s ++ ⟨lineFeed, [0x0a]⟩ :: runes t := by
    intro t
    rw [runes_append (by decide), runes_ascii (by decide)]
    rfl
  have hcount : (s ++ [0x0a]).count 0x0a = ((runes s).countP fun r => r.code == lineFeed) + 1 := by
    rw [List.count_append, ← count_lineFeed (s := s) fun r hr => hr, bytes_runes]
    rfl
  rw [List.append_assoc, List.singleton_append, hfeed, hfeed, tokensOf_append_lineFeed _ _ _ rfl,
    tokensOf_append_lineFeed _ _ _ rfl, hcount, ← tokensOf_lowered, Nat.add_assoc]
  simp [runes, Rune.readFrom, tokensOf, Token.Scan.close]

/-! ## The parser -/

/-- The same outcome in another wording. -/
def reworded {ε ε' α β : Type} (g : ε → ε') (f : α → β) (x : Except ε α) : Except ε' β :=
  (x.map f).mapError g

theorem reworded_bind {ε ε' α α' β β' : Type} {g : ε → ε'} {f : α → α'} {f' : β → β'}
    {k : α → Except ε β} {k' : α' → Except ε' β'} (h : ∀ a, k' (f a) = reworded g f' (k a))
    (x : Except ε α) : reworded g f x >>= k' = reworded g f' (x >>= k) := by
  cases x with
  | error e => rfl
  | ok a => exact h a

namespace Parser

/-- The declaration begun, `d` lines further down. -/
def Pending.lowered (d : Nat) (p : Pending) : Pending :=
  ⟨p.line + d, p.field, p.rest, fun v =>
    FromFields.map (Except.map (Decl.lowered d)) p.rest (p.next v)⟩

/-- The same state `d` lines further down, where `base` was read before, newest first. -/
def State.lowered (d : Nat) (base : List Decl) (s : State) : State :=
  ⟨s.done.map (Decl.lowered d) ++ base, s.pending.map (Pending.lowered d)⟩

variable (d : Nat) (base : List Decl)

theorem advance_lowered (done : List Decl) (line : Nat) (fields : List Field)
    (next : FromFields (Except CountError Decl) fields) :
    advance (done.map (Decl.lowered d) ++ base) (line + d) fields
        (FromFields.map (Except.map (Decl.lowered d)) fields next) =
      reworded (ParseError.lowered d) (State.lowered d base) (advance done line fields next) := by
  cases fields with
  | nil => cases next <;> rfl
  | cons field fields => rfl

theorem step_lowered (s : State) (t : Token) :
    step (s.lowered d base) (t.lowered d) =
      reworded (ParseError.lowered d) (State.lowered d base) (step s t) := by
  obtain ⟨done, pending⟩ := s
  cases pending with
  | none =>
    show step ⟨_, none⟩ _ = _
    simp only [step, Token.lowered]
    cases Head.ofName? t.bytes with
    | none => rfl
    | some head =>
      simp only
      rw [Nat.cast_add, Head.build_lowered]
      exact advance_lowered d base done t.line head.fields (head.build t.line)
  | some p =>
    show step ⟨_, some (p.lowered d)⟩ _ = _
    simp only [step, Token.lowered, Pending.lowered]
    cases t.bytes.cut 0x3d with
    | none => rfl
    | some parts =>
      obtain ⟨label, text⟩ := parts
      by_cases hlabel : label = p.field.label
      · simp only [hlabel, if_true]
        cases p.field.kind.read text with
        | error e => rfl
        | ok value => exact advance_lowered d base done p.line p.rest (p.next value)
      · simp only [hlabel, if_false]
        rfl

theorem finish_lowered (lastLine : Nat) (s : State) :
    finish (lastLine + d) (s.lowered d base) =
      reworded (ParseError.lowered d) (fun ds => base.reverse ++ ds.map (Decl.lowered d))
        (finish lastLine s) := by
  obtain ⟨done, pending⟩ := s
  cases pending with
  | none => simp [finish, State.lowered, reworded, Except.map, Except.mapError]
  | some p => rfl

theorem run_lowered (lastLine : Nat) (ts : List Token) (s : State) :
    (ts.map (Token.lowered d)).foldlM step (s.lowered d base) >>= finish (lastLine + d) =
      reworded (ParseError.lowered d) (fun ds => base.reverse ++ ds.map (Decl.lowered d))
        (ts.foldlM step s >>= finish lastLine) := by
  induction ts generalizing s with
  | nil => exact finish_lowered d base lastLine s
  | cons t ts ih =>
    rw [List.map_cons, List.foldlM_cons, List.foldlM_cons, bind_assoc, bind_assoc, step_lowered]
    exact reworded_bind ih _

/-- Tokens that make declarations leave nothing begun. -/
theorem run_of_parseTokens {lastLine : Nat} {ts : List Token} {decls : List Decl}
    (h : parseTokens lastLine ts = .ok decls) :
    ts.foldlM step State.start = .ok ⟨decls.reverse, none⟩ := by
  obtain ⟨⟨done, pending⟩, hrun, hend⟩ := bind_eq_ok.mp h
  cases pending with
  | some p => cases hend
  | none =>
    cases hend
    rw [hrun, List.reverse_reverse]

end Parser

theorem Decl.lowered_zero : Decl.lowered 0 = id := by
  funext d
  cases d <;> simp [Decl.lowered, Decl.atLine, Decl.line]

theorem ParseError.lowered_zero : ParseError.lowered 0 = id := by
  funext e
  cases e <;> rfl

theorem parseTokens_behind {first second : Bytes} {decls : List Decl}
    (hfirst : first.getLast? = some 0x0a)
    (h : parseTokens (first.count 0x0a + 1) (tokens first) = .ok decls) :
    parseTokens ((first ++ second).count 0x0a + 1) (tokens (first ++ second)) =
      reworded (ParseError.lowered (first.count 0x0a))
        (fun ds => decls ++ ds.map (Decl.lowered (first.count 0x0a)))
        (parseTokens (second.count 0x0a + 1) (tokens second)) := by
  have hlines : (first ++ second).count 0x0a + 1 = second.count 0x0a + 1 + first.count 0x0a := by
    rw [List.count_append]
    omega
  have hrun := Parser.run_lowered (first.count 0x0a) decls.reverse (second.count 0x0a + 1)
    (tokens second) Parser.State.start
  rw [List.reverse_reverse] at hrun
  rw [hlines, parseTokens, parseTokens, tokens, tokensOf_append hfirst, List.foldlM_append, bind_assoc]
  rw [show (tokensOf 1 (runes first)).foldlM Parser.step Parser.State.start = _ from
    Parser.run_of_parseTokens h]
  exact hrun

/-- Lines are counted through, and the second text is read as it would be alone. -/
theorem parse_behind {first second : Bytes} {decls : List Decl} (h : parse first = .ok decls) :
    parse (first ++ second) =
      reworded (ParseError.lowered (first.count 0x0a))
        (fun ds => decls ++ ds.map (Decl.lowered (first.count 0x0a))) (parse second) := by
  cases hfirst : first.getLast? with
  | none =>
    obtain rfl := List.getLast?_eq_none_iff.mp hfirst
    cases h
    simp only [List.nil_append, List.count_nil, Decl.lowered_zero, ParseError.lowered_zero, List.map_id]
    cases parse second <;> rfl
  | some b =>
    obtain rfl := ended_of_parse h b hfirst
    cases hsecond : second.getLast? with
    | none =>
      obtain rfl := List.getLast?_eq_none_iff.mp hsecond
      rw [List.append_nil, h]
      simp [parse, reworded, Except.map, Except.mapError]
    | some c =>
      have hlast : (first ++ second).getLast? = some c := by
        rw [List.getLast?_append, hsecond, Option.some_or]
      rw [parse, hlast, parse, hsecond]
      by_cases hc : c = 0x0a
      · subst hc
        rw [parse, hfirst] at h
        exact parseTokens_behind hfirst h
      · simp only [if_neg hc]
        rfl

/-! ## Messages -/

/-- The second message is the first but for the line, if it gives one, which is `d` further down. -/
inductive SaidBelow (d : Nat) : Bytes → Bytes → Prop
  | located (line : Nat) (what : Bytes) :
      SaidBelow d (ParseError.located line what) (ParseError.located (line + d) what)
  | unlocated {message : Bytes} (h : ∀ line what, message ≠ ParseError.located line what) :
      SaidBelow d message message

theorem noFinalNewline_ne_located (line : Nat) (what : Bytes) :
    ParseError.noFinalNewline.message ≠ ParseError.located line what := by
  intro h
  have htake := congrArg (List.take 19) h
  rw [ParseError.located, List.append_assoc, List.append_assoc, List.take_append_of_le_length
    (by decide)] at htake
  exact absurd htake (by decide)

theorem ParseError.saidBelow_lowered (d : Nat) (e : ParseError) :
    SaidBelow d e.message (e.lowered d).message := by
  cases e with
  | noFinalNewline => exact .unlocated noFinalNewline_ne_located
  | unknownHead line => exact .located line _
  | expectedField line label sample => exact .located line _
  | badValue line label error => exact .located line _
  | badCount line error => exact .located line _

/-- **Parsing is compositional.** Behind a text that is accepted, another one is accepted if and only if
it is accepted alone. Its declarations then follow, each as many lines further down as the first text
has line breaks; otherwise it is refused with the same words and, if they give a line, that line
further down. -/
theorem parse_append {first : Bytes} {decls : List Decl} (h : parse first = .ok decls)
    (second : Bytes) :
    (∀ all, parse (first ++ second) = .ok all ↔ ∃ ds, parse second = .ok ds ∧
      all = decls ++ ds.map (Decl.lowered (first.count 0x0a))) ∧
    ∀ e, parse second = .error e → ∃ e', parse (first ++ second) = .error e' ∧
      SaidBelow (first.count 0x0a) e.message e'.message := by
  rw [parse_behind h]
  cases parse second with
  | ok ds =>
    refine ⟨?_, ?_⟩
    · intro all
      simp [reworded, Except.map, Except.mapError, eq_comm]
    · intro e he
      cases he
  | error e =>
    refine ⟨?_, ?_⟩
    · intro all
      simp [reworded, Except.map, Except.mapError]
    · intro e' he
      cases he
      exact ⟨_, rfl, e.saidBelow_lowered _⟩

/-- A declaration whose last value, on its second line, is no identifier. -/
def badTarget : Bytes := ascii "Relu Name=r FromTensor=k\n ToTensor=1y\n"

/-- Six lines of declarations, then more lines that are accepted or refused. -/
theorem looseText_append :
    parse looseText = .ok looseDecls ∧
    parse (looseText ++ plainText) =
      .ok (looseDecls ++ List.zipWith Decl.atLine [7, 8, 9, 10] looseDecls) ∧
    ∃ e e', parse badTarget = .error e ∧ e.message = ParseError.located 2
        (ascii "ToTensor: does not match ^[a-zA-Z_][a-zA-Z0-9_]*$") ∧
      parse (looseText ++ badTarget) = .error e' ∧ SaidBelow 6 e.message e'.message := by
  have h : parse looseText = .ok looseDecls := by decide +kernel
  have hplain : (parse plainText).map (List.map (Decl.lowered 6)) =
      .ok (List.zipWith Decl.atLine [7, 8, 9, 10] looseDecls) := by
    decide +kernel
  have hbad : parse badTarget = .error (.badValue 2 (ascii "ToTensor") (.noMatch .ident)) := by
    decide +kernel
  have hlines : looseText.count 0x0a = 6 := by decide +kernel
  obtain ⟨ds, hds, hlowered⟩ := map_eq_ok.mp hplain
  obtain ⟨e', he', hsaid⟩ := (parse_append h badTarget).2 _ hbad
  refine ⟨h, ?_, _, e', hbad, rfl, he', hlines ▸ hsaid⟩
  rw [((parse_append h plainText).1 _).mpr ⟨ds, hds, rfl⟩, hlines, hlowered]

end NetImage
