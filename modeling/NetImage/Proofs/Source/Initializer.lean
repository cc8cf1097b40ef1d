import NetImage.Proofs.Source.Indentation

/-!
# NetImage.Proofs.Source.Initializer

The body of a byte array: sixteen literals to a row. The rows are read back as the bytes they were
written for, whatever tabs, spaces and line breaks are between the literals.

* `readInitializer`: reads literals, each with a comma behind it.
* `exists_rows`: the rows of some bytes.
* `Rows.readInitializer_indented`: indented rows are read back.
-/

namespace NetImage

/-- Is this byte there for the layout alone? -/
def isLayout (b : UInt8) : Bool := b == 0x09 || b == 0x20 || b == 0x0a

/-- The value of a hexadecimal digit. -/
def hexValue? (b : UInt8) : Option Nat :=
  if 0x30 ≤ b ∧ b ≤ 0x39 then some (b.toNat - 0x30)
  else if 0x61 ≤ b ∧ b ≤ 0x66 then some (b.toNat - 0x57)
  else if 0x41 ≤ b ∧ b ≤ 0x46 then some (b.toNat - 0x37)
  else none

/-- The bytes of literals of two digits each, with nothing between them but a comma behind each. -/
def readLiterals : Bytes → Option Bytes
  | [] => some []
  | 0x30 :: 0x78 :: high :: low :: 0x2c :: rest => do
    let h ← hexValue? high
    let l ← hexValue? low
    let bytes ← readLiterals rest
    pure (UInt8.ofNat (16 * h + l) :: bytes)
  | _ => none

/-- The bytes of an initializer; its layout does not matter. -/
def readInitializer (body : Bytes) : Option Bytes :=
  readLiterals (body.filter fun b => !isLayout b)

/-! ## Literals -/

namespace Fragment

theorem hexValue?_hexDigit : ∀ d < 16, hexValue? (hexDigit d) = some d := by decide

theorem hexLiteral_eq (b : UInt8) :
    hexLiteral b = [0x30, 0x78, hexDigit (b.toNat / 16), hexDigit (b.toNat % 16)] := by
  have hhigh : b.toNat / 16 % 16 = b.toNat / 16 := by
    have := b.toNat_lt
    omega
  simp [hexLiteral, hexDigits, hhigh]

theorem readLiterals_hexLiteral (b : UInt8) (rest : Bytes) :
    readLiterals (hexLiteral b ++ 0x2c :: rest) = (readLiterals rest).map (b :: ·) := by
  have hb := b.toNat_lt
  rw [hexLiteral_eq]
  simp only [List.cons_append, List.nil_append, readLiterals,
    hexValue?_hexDigit _ (show b.toNat / 16 < 16 by omega),
    hexValue?_hexDigit _ (show b.toNat % 16 < 16 by omega)]
  have hbyte : UInt8.ofNat (16 * (b.toNat / 16) + b.toNat % 16) = b := by
    rw [show 16 * (b.toNat / 16) + b.toNat % 16 = b.toNat by omega, UInt8.ofNat_toNat]
  cases readLiterals rest with
  | none => rfl
  | some bytes => exact congrArg (fun c => some (c :: bytes)) hbyte

theorem readLiterals_flatMap (data : Bytes) :
    readLiterals (data.flatMap fun b => hexLiteral b ++ [0x2c]) = some data := by
  induction data with
  | nil => rfl
  | cons b data ih =>
    rw [List.flatMap_cons, List.append_assoc, List.singleton_append, readLiterals_hexLiteral, ih]
    rfl

theorem inline_hexDigit : ∀ d < 16, isInline (hexDigit d) = true ∧ isLayout (hexDigit d) = false := by
  decide

/-- A literal with its comma, and what stands before it in its row. -/
def rowPiece (i : Nat) (b : UInt8) : Bytes :=
  (if i % 16 = 0 then [] else [0x20]) ++ hexLiteral b ++ [0x2c]

/-- The first byte of a piece of a row. -/
def rowStart (i : Nat) : UInt8 := if i % 16 = 0 then 0x30 else 0x20

theorem head?_rowPiece (i : Nat) (b : UInt8) (rest : Bytes) :
    (rowPiece i b ++ rest).head? = some (rowStart i) := by
  unfold rowPiece rowStart
  split <;> rfl

theorem inline_rowPiece (i : Nat) (b : UInt8) : (rowPiece i b).all isInline = true := by
  have hb := b.toNat_lt
  have hhigh := (inline_hexDigit (b.toNat / 16) (by omega)).1
  have hlow := (inline_hexDigit (b.toNat % 16) (by omega)).1
  have hgap : (if i % 16 = 0 then [] else [0x20] : Bytes).all isInline = true := by
    split <;> rfl
  rw [rowPiece, hexLiteral_eq, List.all_append, List.all_append, hgap]
  simp only [List.all_cons, List.all_nil, hhigh, hlow]
  rfl

theorem filter_rowPiece (i : Nat) (b : UInt8) :
    (rowPiece i b).filter (fun c => !isLayout c) = hexLiteral b ++ [0x2c] := by
  have hb := b.toNat_lt
  have hhigh := (inline_hexDigit (b.toNat / 16) (by omega)).2
  have hlow := (inline_hexDigit (b.toNat % 16) (by omega)).2
  have hgap : (if i % 16 = 0 then [] else [0x20] : Bytes).filter (fun c => !isLayout c) = [] := by
    split <;> rfl
  rw [rowPiece, hexLiteral_eq, List.filter_append, List.filter_append, hgap]
  simp only [List.filter_cons, List.filter_nil, hhigh, hlow]
  rfl

/-! ## Rows -/

/-- The rows of some bytes, of which the first is the `i`-th of the array. -/
structure Rows (i : Nat) (data : Bytes) (rows : List Bytes) : Prop where
  text : hexText i data = unlines rows
  nonempty : data ≠ [] → rows ≠ []
  first : ∀ row ∈ rows.head?, row.head? = some (rowStart i)
  others : ∀ row ∈ rows.tail, row.head? = some 0x30
  inline : ∀ row ∈ rows, row.all isInline = true
  literals : rows.flatten.filter (fun b => !isLayout b) =
    data.flatMap fun b => hexLiteral b ++ [0x2c]

theorem rows_nil (i : Nat) : Rows i [] [] :=
  ⟨rfl, fun h => absurd rfl h, by simp, by simp, by simp, rfl⟩

/-- A byte that ends its row. -/
theorem Rows.cons_ending {i : Nat} {b : UInt8} {data : Bytes} {rows : List Bytes}
    (h : Rows (i + 1) data rows) (hend : i % 16 = 15 ∨ data.isEmpty = true) :
    Rows i (b :: data) (rowPiece i b :: rows) where
  text := by
    simp only [hexText, if_pos hend, h.text, unlines, rowPiece, List.flatMap_cons, List.append_assoc]
    rfl
  nonempty _ := List.cons_ne_nil _ _
  first := by
    intro row hrow
    obtain rfl := Option.some.inj hrow
    simpa using head?_rowPiece i b []
  others := by
    intro row hrow
    cases rows with
    | nil => cases hrow
    | cons r rows =>
      rcases List.mem_cons.mp hrow with rfl | hrow
      · rw [h.first row rfl]
        have hstart : (i + 1) % 16 = 0 := by
          rcases hend with hend | hend
          · omega
          · obtain rfl := List.isEmpty_iff.mp hend
            have := h.text
            simp [hexText, unlines] at this
        rw [rowStart, if_pos hstart]
      · exact h.others row hrow
  inline := List.forall_mem_cons.mpr ⟨inline_rowPiece i b, h.inline⟩
  literals := by
    rw [List.flatten_cons, List.filter_append, filter_rowPiece, h.literals, List.flatMap_cons]

/-- A byte that does not end its row is put before the others of the row. -/
theorem Rows.cons_within {i : Nat} {b : UInt8} {data row : Bytes} {rows : List Bytes}
    (h : Rows (i + 1) data (row :: rows)) (hend : ¬(i % 16 = 15 ∨ data.isEmpty = true)) :
    Rows i (b :: data) ((rowPiece i b ++ row) :: rows) where
  text := by
    simp only [hexText, if_neg hend, h.text, unlines, rowPiece, List.flatMap_cons, List.append_assoc]
  nonempty _ := List.cons_ne_nil _ _
  first := by
    intro r hr
    obtain rfl := Option.some.inj hr
    exact head?_rowPiece i b row
  others := h.others
  inline := by
    have hinline := List.forall_mem_cons.mp h.inline
    refine List.forall_mem_cons.mpr ⟨?_, hinline.2⟩
    rw [List.all_append, inline_rowPiece, hinline.1]
    rfl
  literals := by
    rw [List.flatten_cons, List.append_assoc, ← List.flatten_cons, List.filter_append,
      filter_rowPiece, h.literals, List.flatMap_cons]

theorem exists_rows (i : Nat) (data : Bytes) : ∃ rows, Rows i data rows := by
  induction data generalizing i with
  | nil => exact ⟨[], rows_nil i⟩
  | cons b data ih =>
    obtain ⟨rows, h⟩ := ih (i + 1)
    by_cases hend : i % 16 = 15 ∨ data.isEmpty = true
    · exact ⟨_, h.cons_ending hend⟩
    · cases rows with
      | nil =>
        have hne : data ≠ [] := by
          rintro rfl
          exact hend (.inr rfl)
        exact absurd rfl (h.nonempty hne)
      | cons row rows => exact ⟨_, h.cons_within hend⟩

namespace Rows

variable {data : Bytes} {rows : List Bytes}

theorem head?_row (h : Rows 0 data rows) : ∀ row ∈ rows, row.head? = some 0x30 := by
  intro row hrow
  cases rows with
  | nil => cases hrow
  | cons r rows =>
    rcases List.mem_cons.mp hrow with rfl | hrow
    · exact h.first row rfl
    · exact h.others row hrow

theorem indentLine_row (h : Rows 0 data rows) : ∀ row ∈ rows, indentLine 1 row = 0x09 :: row := by
  intro row hrow
  cases row with
  | nil => cases h.head?_row [] hrow
  | cons b rest =>
    obtain rfl := Option.some.inj (h.head?_row _ hrow)
    rfl

/-- The rows are read back when they are indented. -/
theorem readInitializer_indented (h : Rows 0 data rows) :
    readInitializer (rows.map (indentLine 1)).flatten = some data := by
  have hindent : rows.map (indentLine 1) = rows.map (0x09 :: ·) :=
    List.map_congr_left h.indentLine_row
  have hfilter : ∀ rows : List Bytes, (rows.map (0x09 :: ·)).flatten.filter (fun b => !isLayout b) =
      rows.flatten.filter fun b => !isLayout b := by
    intro rows
    induction rows with
    | nil => rfl
    | cons row rows ih =>
      rw [List.map_cons, List.flatten_cons, List.flatten_cons, List.filter_append,
        List.filter_append, ih]
      rfl
  rw [readInitializer, hindent, hfilter, h.literals, readLiterals_flatMap]

end Rows

/-- The rows of an array. -/
def hexRows (data : Bytes) : List Bytes := (Bytes.split 0x0a (hexText 0 data)).dropLast

theorem rows_hexRows (data : Bytes) : Rows 0 data (hexRows data) := by
  obtain ⟨rows, h⟩ := exists_rows 0 data
  have hsplit : Bytes.split 0x0a (unlines rows) = rows ++ [[]] :=
    Bytes.split_lines fun row hrow => feed_not_mem_of_inline (h.inline row hrow)
  rwa [hexRows, h.text, hsplit, List.dropLast_concat]

end Fragment
end NetImage
