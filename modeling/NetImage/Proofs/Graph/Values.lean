import NetImage.Graph.Printer
import NetImage.Proofs.Graph.Reading
import NetImage.Proofs.Number.Decimal
import NetImage.Proofs.Text.Pieces
import NetImage.Proofs.Text.Tokens

/-!
# NetImage.Proofs.Graph.Values

Values that were read are written so that they are read again. Names, number texts of constants, paths
and choices are written as they were read; other numbers have a form of their own.

* `FieldKind.write_cases`: a value that was read is written as it was read, or in ASCII and readable.
* `FieldKind.read_write`, `FieldKind.solid_write`: what follows for every kind.
-/

namespace NetImage
namespace FieldKind

/-- The text of the value is ASCII without blanks, and it is read as the value. -/
structure Canonical (kind : FieldKind) (v : kind.Val) : Prop where
  read : kind.read (kind.write v) = .ok v
  graphic : ∀ b ∈ kind.write v, isGraphic b = true

/-! ## Numbers -/

theorem isGraphic_of_isDigit {b : UInt8} (h : isDigit b = true) : isGraphic b = true := by
  obtain ⟨hlow, hhigh⟩ := Bool.and_eq_true_iff.mp h
  rw [decide_eq_true_eq] at hlow hhigh
  exact Bool.and_eq_true_iff.mpr ⟨decide_eq_true (UInt8.le_trans (by decide) hlow),
    decide_eq_true (UInt8.lt_of_le_of_lt hhigh (by decide))⟩

theorem isGraphic_of_mem_decimal {n : Int} {b : UInt8} (h : b ∈ decimal n) :
    isGraphic b = true := by
  rcases mem_decimal h with h | rfl
  · exact isGraphic_of_isDigit h
  · decide

theorem checked_of_accepts {pattern : Pattern} {s : Bytes} (h : pattern.accepts s = true) :
    checked pattern s = .ok s := by
  rw [checked, if_pos h]

theorem readInt_decimal (n : Int64) : readInt (decimal n.toInt) = .ok n := by
  rw [readInt, readInt64_decimal]

theorem readSigned_decimal (n : Int64) : readSigned (decimal n.toInt) = .ok n := by
  rw [readSigned, checked_of_accepts (Pattern.accepts_int _)]
  exact readInt_decimal n

theorem readSize_decimal {n : Int64} (h : IsSize n) : readSize (decimal n.toInt) = .ok n := by
  have haccepts : Pattern.size.accepts (decimal n.toInt) = true := by
    cases hn : n.toInt with
    | ofNat m =>
      refine Pattern.accepts_size_decimal ?_
      have := h.1
      rw [hn] at this
      exact Int.ofNat_lt.mp this
    | negSucc m =>
      have := h.1
      rw [hn] at this
      omega
  have hbound : n < sizeBound := by
    rw [Int64.lt_iff_toInt_lt]
    exact h.2
  simp [readSize, checked_of_accepts haccepts, readInt_decimal, hbound, bind, Except.bind, pure,
    Except.pure]

/-! ## Lists -/

/-- Numbers joined by a separator that is in no number are found again. -/
theorem split_writeInts {sep : UInt8} (hdigit : isDigit sep = false) (hminus : sep ≠ 0x2d)
    {ns : List Int64} (hne : ns ≠ []) :
    Bytes.split sep (Bytes.join [sep] (ns.map fun n => decimal n.toInt)) =
      ns.map fun n => decimal n.toInt := by
  refine Bytes.split_join ?_ (by simpa using hne)
  intro p hp hmem
  obtain ⟨n, -, rfl⟩ := List.mem_map.mp hp
  rcases mem_decimal hmem with h | h
  · rw [hdigit] at h
    cases h
  · exact hminus h

theorem graphic_writeInts {sep : UInt8} (hsep : isGraphic sep = true) (ns : List Int64) :
    ∀ b ∈ Bytes.join [sep] (ns.map fun n => decimal n.toInt), isGraphic b = true := by
  intro b hb
  rcases Bytes.mem_join hb with hb | ⟨p, hp, hb⟩
  · rw [List.mem_singleton.mp hb]
    exact hsep
  · obtain ⟨n, -, rfl⟩ := List.mem_map.mp hp
    exact isGraphic_of_mem_decimal hb

theorem writeInts_ne_nil {sep : Bytes} {ns : List Int64} (hne : ns ≠ []) :
    Bytes.join sep (ns.map fun n => decimal n.toInt) ≠ [] := by
  refine Bytes.join_ne_nil (by simpa using hne) ?_
  intro p hp
  obtain ⟨n, -, rfl⟩ := List.mem_map.mp hp
  exact decimal_ne_nil _

theorem mapM_decimal {ε : Type} {each : Bytes → Except ε Int64} {ns : List Int64}
    (h : ∀ n ∈ ns, each (decimal n.toInt) = .ok n) :
    (ns.map fun n => decimal n.toInt).mapM each = .ok ns := by
  rw [mapM_eq_ok, List.forall₂_map_left_iff]
  exact List.forall₂_same.mpr h

theorem canonical_intList {ns : List Int64} (hne : ns ≠ []) : intList.Canonical ns := by
  refine ⟨?_, graphic_writeInts (by decide) ns⟩
  show readList readSigned (Bytes.join [0x2c] (ns.map fun n => decimal n.toInt)) = .ok ns
  rw [readList, if_neg (by simpa using writeInts_ne_nil hne),
    split_writeInts (by decide) (by decide) hne]
  exact mapM_decimal fun n _ => readSigned_decimal n

theorem canonical_dims {ns : List Int64} (hne : ns ≠ []) (hlen : ns.length ≤ maxDims)
    (hsize : ∀ n ∈ ns, IsSize n) : dims.Canonical ns := by
  refine ⟨?_, graphic_writeInts (by decide) ns⟩
  show readDims (Bytes.join [0x78] (ns.map fun n => decimal n.toInt)) = .ok ns
  have hsplit : Bytes.split 0x78 _ = _ := split_writeInts (by decide) (by decide) hne
  rw [readDims, if_neg (by simpa using writeInts_ne_nil hne)]
  simp only [hsplit, List.length_map]
  rw [if_neg (Nat.not_lt.mpr hlen)]
  exact mapM_decimal fun n hn => readSize_decimal (hsize n hn)

/-- A list that was read is the pieces of its text. -/
theorem readList_eq_ok {α : Type} {each : Bytes → Except ValueError α} {s : Bytes} {vs : List α}
    (h : readList each s = .ok vs) : (s.split 0x2c).mapM each = .ok vs := by
  unfold readList at h
  split at h
  · cases h
  · exact h

theorem ne_nil_of_mapM {α : Type} {each : Bytes → Except ValueError α} {pieces : List Bytes}
    {vs : List α} (h : pieces.mapM each = .ok vs) (hne : pieces ≠ []) : vs ≠ [] := by
  rintro rfl
  exact hne (List.forall₂_nil_right_iff.mp (mapM_eq_ok.mp h))

theorem eq_of_mapM_checked {pattern : Pattern} {pieces vs : List Bytes}
    (h : pieces.mapM (checked pattern) = .ok vs) : vs = pieces := by
  have := mapM_eq_ok.mp h
  rw [← List.forall₂_eq_eq_eq]
  exact (this.imp fun _ _ hv => (checked_eq_ok hv).1.symm).flip.imp fun _ _ hv => hv.symm

theorem write_checkedList {pattern : Pattern} {s : Bytes} {vs : List Bytes}
    (h : readList (checked pattern) s = .ok vs) : writeList "," vs = s := by
  rw [eq_of_mapM_checked (readList_eq_ok h)]
  exact Bytes.join_split 0x2c s

theorem write_choice {α : Type} {name : α → Bytes} {all : List α} {s : Bytes} {a : α}
    (h : readChoice name all s = .ok a) : name a = s := by
  unfold readChoice at h
  split at h
  · rename_i hfound
    cases h
    have := List.find?_some hfound
    exact beq_iff_eq.mp this
  · split at h <;> cases h

/-! ## Every kind -/

theorem write_data {s : Bytes} {v : ConstData} (h : readData s = .ok v) : data.write v = s := by
  unfold readData at h
  split at h
  · split at h
    · cases h
    · cases h
      rfl
  · cases hlist : readList (checked .float) s with
    | error e => simp [hlist, Functor.map, Except.map] at h
    | ok values =>
      simp only [hlist, Functor.map, Except.map, Except.ok.injEq] at h
      subst h
      exact write_checkedList hlist

/-- A value that was read is written as it was read, or it has a form that is read again. -/
theorem write_cases {kind : FieldKind} {s : Bytes} {v : kind.Val} (h : kind.read s = .ok v) :
    kind.write v = s ∨ kind.Canonical v := by
  cases kind with
  | ident => exact .inl (checked_eq_ok h).1
  | name => exact .inl (checked_eq_ok h).1
  | optIdent =>
    refine .inl ?_
    simp only [read] at h
    split at h
    · rename_i hdash
      cases h
      exact hdash.symm
    · cases hid : checked .ident s with
      | error e => simp [hid, Functor.map, Except.map] at h
      | ok t =>
        simp only [hid, Functor.map, Except.map, Except.ok.injEq] at h
        subst h
        exact (checked_eq_ok hid).1
  | size =>
    refine .inr ⟨readSize_decimal (isSize_of_readSize h), ?_⟩
    intro b hb
    exact isGraphic_of_mem_decimal hb
  | int =>
    refine .inr ⟨readSigned_decimal v, ?_⟩
    intro b hb
    exact isGraphic_of_mem_decimal hb
  | identList => exact .inl (write_checkedList h)
  | intList =>
    exact .inr (canonical_intList
      (ne_nil_of_mapM (readList_eq_ok h) (Bytes.split_ne_nil 0x2c s)))
  | dims =>
    have hsize := isSize_of_readDims h
    simp only [read, readDims] at h
    split at h
    · cases h
    · split at h
      · cases h
      · rename_i hlen
        refine .inr (canonical_dims (ne_nil_of_mapM h (Bytes.split_ne_nil 0x78 s)) ?_ hsize)
        rw [← (mapM_eq_ok.mp h).length_eq]
        exact Nat.not_lt.mp hlen
  | data => exact .inl (write_data h)
  | elementType => exact .inl (write_choice h)
  | autoPad => exact .inl (write_choice h)

theorem read_write {kind : FieldKind} {s : Bytes} {v : kind.Val} (h : kind.read s = .ok v) :
    kind.read (kind.write v) = .ok v := by
  rcases write_cases h with hs | hv
  · rw [hs, h]
  · exact hv.read

theorem solid_write {kind : FieldKind} {s : Bytes} {v : kind.Val} (h : kind.read s = .ok v)
    (hs : Solid s) : Solid (kind.write v) := by
  rcases write_cases h with heq | hv
  · rw [heq]
    exact hs
  · exact solid_of_graphic hv.graphic

end FieldKind
end NetImage
