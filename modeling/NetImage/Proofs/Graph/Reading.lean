import NetImage.Graph.Parser
import NetImage.Proofs.Passes

/-!
# NetImage.Proofs.Graph.Reading

What can be said of every declaration of an accepted text. The parser hands each field's value to the
head's builder, so a property that the builder has on all values that can be read is one of all
declarations.

* `Yields`: a builder makes only declarations with a property.
* `forall_of_parse`: then every declaration of an accepted text has it.
* `inRange_of_parse`: extents and dims are between 1 and 65535, and operator types are in the table.
-/

namespace NetImage

/-- A value that some text is read as. -/
def FieldKind.Readable (kind : FieldKind) (v : kind.Val) : Prop := ∃ text, kind.read text = .ok v

/-- Values that can be read, one for each field, make only declarations with property `P`. -/
def Yields (P : Decl → Prop) :
    (fields : List Field) → FromFields (Except CountError Decl) fields → Prop
  | [], made => ∀ d, made = .ok d → P d
  | field :: fields, next => ∀ v, field.kind.Readable v → Yields P fields (next v)

namespace Parser

/-- All declarations read have property `P`, and so will the one begun. -/
structure State.Yields (P : Decl → Prop) (s : State) : Prop where
  done : ∀ d ∈ s.done, P d
  pending : ∀ p, s.pending = some p → NetImage.Yields P (p.field :: p.rest) p.next

variable {P : Decl → Prop}

theorem advance_yields {done : List Decl} {line : Nat} {fields : List Field}
    {next : FromFields (Except CountError Decl) fields} {s : State}
    (hdone : ∀ d ∈ done, P d) (hnext : Yields P fields next)
    (h : advance done line fields next = .ok s) : s.Yields P := by
  cases fields with
  | nil =>
    cases next with
    | error e => cases h
    | ok d =>
      cases h
      refine ⟨?_, fun p hp => by cases hp⟩
      intro d' hd'
      rcases List.mem_cons.mp hd' with rfl | hd'
      · exact hnext d' rfl
      · exact hdone d' hd'
  | cons field rest =>
    cases h
    refine ⟨hdone, ?_⟩
    intro p hp
    cases hp
    exact hnext

theorem step_yields (hbuild : ∀ line head, Yields P (Head.fields head) (head.build line))
    {s s' : State} {t : Token} (hs : s.Yields P) (h : step s t = .ok s') : s'.Yields P := by
  unfold step at h
  cases hp : s.pending with
  | none =>
    rw [hp] at h
    cases hh : Head.ofName? t.bytes with
    | none => rw [hh] at h; cases h
    | some head =>
      rw [hh] at h
      exact advance_yields hs.done (hbuild t.line head) h
  | some p =>
    rw [hp] at h
    cases hc : t.bytes.cut 0x3d with
    | none => rw [hc] at h; cases h
    | some parts =>
      obtain ⟨label, text⟩ := parts
      simp only [hc] at h
      split at h
      · cases hv : p.field.kind.read text with
        | error e => rw [hv] at h; cases h
        | ok value =>
          rw [hv] at h
          exact advance_yields hs.done (hs.pending p hp value ⟨text, hv⟩) h
      · cases h

end Parser

/-- What the builders make of values that can be read holds of every declaration of a text. -/
theorem forall_of_parse {P : Decl → Prop}
    (hbuild : ∀ line head, Yields P (Head.fields head) (head.build line)) {text : Bytes}
    {decls : List Decl} (h : parse text = .ok decls) : ∀ d ∈ decls, P d := by
  unfold parse at h
  split at h
  · cases h
    simp
  · split at h
    · unfold parseTokens at h
      obtain ⟨s, hrun, hend⟩ := bind_eq_ok.mp h
      have hs : s.Yields P := by
        refine foldlM_invariant (P := fun _ s => s.Yields P) ?_ ?_ hrun
        · intro _ t s s' hs hstep
          exact Parser.step_yields hbuild hs hstep
        · exact ⟨by simp [Parser.State.start], fun p hp => by cases hp⟩
      unfold Parser.finish at hend
      split at hend
      · cases hend
        intro d hd
        exact hs.done d (List.mem_reverse.mp hd)
      · cases hend
    · cases h

/-! ## Sizes -/

/-- A positive number that fits sixteen bits. -/
def IsSize (n : Int64) : Prop := 1 ≤ n.toInt ∧ n.toInt < 2 ^ 16

instance : DecidablePred IsSize := fun _ => inferInstanceAs (Decidable (_ ∧ _))

theorem le_of_readDigits {n m : Nat} {s : Bytes} (h : readDigits n s = .ok m) : n ≤ m := by
  induction s generalizing n with
  | nil =>
    cases h
    exact le_refl _
  | cons b s ih =>
    simp only [readDigits] at h
    split at h
    · split at h
      · have := ih h
        omega
      · cases h
    · cases h

theorem Pattern.accepts_size {b : UInt8} {rest : Bytes} (hb : b ≠ 0x30) :
    size.accepts (b :: rest) = (afterNat (b :: rest) == some []) := by
  rw [accepts]
  intro tail h
  exact hb (List.cons.inj h).1

theorem Pattern.afterNat_cons {b : UInt8} {rest : Bytes} (hb : b ≠ 0x30) :
    afterNat (b :: rest) = if isDigit b then some (rest.dropWhile isDigit) else none := by
  rw [afterNat]
  exact hb

theorem Pattern.exists_of_accepts_size {s : Bytes} (h : size.accepts s = true) :
    ∃ b rest, s = b :: rest ∧ isDigit b = true ∧ b ≠ 0x30 := by
  cases s with
  | nil => simp [accepts, afterNat] at h
  | cons b rest =>
    have hb : b ≠ 0x30 := by
      rintro rfl
      simp [accepts] at h
    rw [accepts_size hb, afterNat_cons hb] at h
    split at h
    · exact ⟨b, rest, rfl, by assumption, hb⟩
    · simp at h

/-- A text that starts with a digit has no sign. -/
theorem exists_of_readInt64 {b : UInt8} {rest : Bytes} {n : Int64} (hdigit : isDigit b = true)
    (h : readInt64 (b :: rest) = .ok n) :
    ∃ m, readDigits (digitValue b) rest = .ok m ∧ m < signedBound ∧ n = Int64.ofInt m := by
  have hminus : b ≠ 0x2d := by
    rintro rfl
    exact absurd hdigit (by decide)
  have hplus : b ≠ 0x2b := by
    rintro rfl
    exact absurd hdigit (by decide)
  unfold readInt64 at h
  split at h
  rename_i heq
  split at heq
  · rename_i hcons
    exact absurd (List.cons.inj hcons).1 hminus
  · rename_i hcons
    exact absurd (List.cons.inj hcons).1 hplus
  · cases heq
    cases hm : readNat (b :: rest) with
    | error e => rw [hm] at h; cases h
    | ok m =>
      simp only [hm, Bool.false_eq_true, if_false] at h
      simp only [readNat, readDigits, hdigit, if_true, Nat.zero_mul, Nat.zero_add] at hm
      split at h
      · cases h
        split at hm
        · exact ⟨m, hm, by assumption, rfl⟩
        · cases hm
      · cases h

theorem digitValue_pos {b : UInt8} (hdigit : isDigit b = true) (hb : b ≠ 0x30) :
    1 ≤ digitValue b := by
  have h : 0x30 ≤ b.toNat := by
    simp only [isDigit, Bool.and_eq_true, decide_eq_true_eq, UInt8.le_iff_toNat_le] at hdigit
    exact hdigit.1
  have hne : b.toNat ≠ 0x30 := fun h => hb (UInt8.toNat_inj.mp h)
  unfold digitValue
  omega

namespace FieldKind

theorem checked_eq_ok {pattern : Pattern} {s t : Bytes} (h : checked pattern s = .ok t) :
    t = s ∧ pattern.accepts s = true := by
  unfold checked at h
  split at h
  · cases h
    exact ⟨rfl, by assumption⟩
  · split at h <;> cases h

theorem isSize_of_readSize {s : Bytes} {n : Int64} (h : readSize s = .ok n) : IsSize n := by
  unfold readSize at h
  obtain ⟨t, ht, h⟩ := bind_eq_ok.mp h
  obtain ⟨m, hm, h⟩ := bind_eq_ok.mp h
  obtain ⟨rfl, haccepts⟩ := checked_eq_ok ht
  obtain ⟨b, rest, rfl, hdigit, hb⟩ := Pattern.exists_of_accepts_size haccepts
  unfold readInt at hm
  cases hread : readInt64 (b :: rest) with
  | error e => rw [hread] at hm; cases hm
  | ok k =>
    rw [hread] at hm
    cases hm
    obtain ⟨m, hdigits, hm, rfl⟩ := exists_of_readInt64 hdigit hread
    have hle := le_of_readDigits hdigits
    have hpos := digitValue_pos hdigit hb
    have htoInt : (Int64.ofInt m).toInt = m := by
      simp only [signedBound] at hm
      exact Int64.toInt_ofInt_of_le (by norm_num) (by norm_num; omega)
    split at h
    · rename_i hlt
      cases h
      rw [Int64.lt_iff_toInt_lt, htoInt] at hlt
      refine ⟨?_, ?_⟩ <;> rw [htoInt]
      · omega
      · exact hlt
    · cases h

theorem isSize_of_readDims {s : Bytes} {dims : List Int64} (h : readDims s = .ok dims) :
    ∀ d ∈ dims, IsSize d := by
  unfold readDims at h
  split at h
  · cases h
  · simp only at h
    split at h
    · cases h
    · intro d hd
      obtain ⟨text, -, hread⟩ := exists_left_of_forall₂ (mapM_eq_ok.mp h) hd
      exact isSize_of_readSize hread

end FieldKind

/-! ## Ranges of declarations -/

/-- The numbers of a declaration are in range: extents and dims fit sixteen bits and are not zero, and
an operator's type is one of the runtime's table. -/
def Decl.InRange : Decl → Prop
  | .input d => IsSize d.channels ∧ IsSize d.height ∧ IsSize d.width
  | .const d => ∀ dim ∈ d.dims, IsSize dim
  | .op d => 0 ≤ d.body.type.index ∧ d.body.type.index < OpType.table.length

theorem Head.const_eq_ok {line : Int} {tensor : Bytes} {type : ElementType} {dims : List Int64}
    {data : ConstData} {d : Decl} (h : const_ line tensor type dims data = .ok d) :
    d = .const ⟨line, tensor, type, dims, data⟩ := by
  cases data with
  | file path =>
    cases h
    rfl
  | inline values =>
    simp only [const_] at h
    split at h
    · cases h
      rfl
    · cases h

theorem inRange_of_parse {text : Bytes} {decls : List Decl} (h : parse text = .ok decls) :
    ∀ d ∈ decls, d.InRange := by
  refine forall_of_parse ?_ h
  intro line head
  cases head
  case const =>
    rintro tensor - type - dims ⟨_, hdims⟩ data - d hd
    cases Head.const_eq_ok hd
    exact FieldKind.isSize_of_readDims hdims
  case input =>
    rintro tensor - channels ⟨_, hc⟩ height ⟨_, hh⟩ width ⟨_, hw⟩ d hd
    cases hd
    exact ⟨FieldKind.isSize_of_readSize hc, FieldKind.isSize_of_readSize hh,
      FieldKind.isSize_of_readSize hw⟩
  all_goals
    simp only [Yields, Head.build, Head.unary, Head.binary]
    intros
    rename_i hd
    cases hd
    simp only [Decl.InRange, OpBody.type]
    decide

end NetImage
