import NetImage.Graph.Value
import Mathlib.Data.List.TakeWhile
import Mathlib.Tactic

/-!
# NetImage.Proofs.Number.Decimal

Numbers in decimal. The text of a number has no sign but a minus and no leading zeros, and it is read
back as the number.

* `decimalNat_of_lt`, `decimalNat_of_le`: the digits, last one last.
* `decimalNat_injective`: different numbers have different texts.
* `readInt64_decimal`: every signed word of 64 bits is read back.
* `Pattern.accepts_int`, `Pattern.accepts_size_decimal`, `Pattern.accepts_float`: the text is of the
  classes of numbers.
-/

namespace NetImage

theorem decimalNat_of_lt {n : Nat} (h : n < 10) : decimalNat n = [hexDigit n] := by
  interval_cases n <;> decide

theorem decimalNat_of_le {n : Nat} (h : 10 ≤ n) :
    decimalNat n = decimalNat (n / 10) ++ decimalNat (n % 10) := by
  have hdigits := Nat.toDigits_append_toDigits (b := 10) (n := n / 10) (d := n % 10) (by omega)
    (by omega) (by omega)
  rw [Nat.div_add_mod] at hdigits
  rw [decimalNat, ← hdigits, List.map_append]
  rfl

/-- A number is one digit, or a number with a digit behind it. -/
theorem decimalNat_induction {P : Nat → Bytes → Prop}
    (digit : ∀ n, n < 10 → P n [hexDigit n])
    (more : ∀ n d s, 0 < n → d < 10 → P n s → P (n * 10 + d) (s ++ [hexDigit d]))
    (n : Nat) : P n (decimalNat n) := by
  induction n using Nat.strong_induction_on with
  | _ n ih =>
    by_cases hn : n < 10
    · rw [decimalNat_of_lt hn]
      exact digit n hn
    · have hlast : n % 10 < 10 := Nat.mod_lt _ (by omega)
      have := more (n / 10) (n % 10) _ (by omega) hlast (ih (n / 10) (by omega))
      rw [decimalNat_of_le (by omega), decimalNat_of_lt hlast]
      rwa [Nat.div_add_mod'] at this

theorem isDigit_hexDigit {d : Nat} (h : d < 10) : isDigit (hexDigit d) = true := by
  interval_cases d <;> decide

theorem digitValue_hexDigit {d : Nat} (h : d < 10) : digitValue (hexDigit d) = d := by
  interval_cases d <;> decide

theorem isDigit_of_mem_decimalNat (n : Nat) : ∀ b ∈ decimalNat n, isDigit b = true := by
  refine decimalNat_induction (P := fun _ s => ∀ b ∈ s, isDigit b = true) ?_ ?_ n
  · intro d hd b hb
    rw [List.mem_singleton.mp hb]
    exact isDigit_hexDigit hd
  · intro n d s _ hd hs b hb
    rcases List.mem_append.mp hb with hb | hb
    · exact hs b hb
    · rw [List.mem_singleton.mp hb]
      exact isDigit_hexDigit hd

/-- The first digit is zero only in zero itself. -/
theorem exists_decimalNat (n : Nat) :
    ∃ b s, decimalNat n = b :: s ∧ isDigit b = true ∧ (b = 0x30 → n = 0 ∧ s = []) := by
  refine decimalNat_induction
    (P := fun n s => ∃ b t, s = b :: t ∧ isDigit b = true ∧ (b = 0x30 → n = 0 ∧ t = [])) ?_ ?_ n
  · intro n hn
    refine ⟨_, [], rfl, isDigit_hexDigit hn, ?_⟩
    interval_cases n <;> decide
  · rintro n d _ hn hd ⟨b, t, rfl, hb, hzero⟩
    refine ⟨b, t ++ [_], rfl, hb, ?_⟩
    intro h
    exact absurd (hzero h).1 hn.ne'

theorem foldl_decimalNat (n : Nat) :
    (decimalNat n).foldl (fun m b => m * 10 + digitValue b) 0 = n := by
  refine decimalNat_induction (P := fun n s => s.foldl (fun m b => m * 10 + digitValue b) 0 = n)
    ?_ ?_ n
  · intro d hd
    simp [digitValue_hexDigit hd]
  · intro n d s _ hd hs
    simp [hs, digitValue_hexDigit hd]

theorem decimalNat_injective : Function.Injective decimalNat := by
  intro m n h
  rw [← foldl_decimalNat m, h, foldl_decimalNat]

/-! ## Reading -/

theorem mem_decimal {n : Int} {b : UInt8} (h : b ∈ decimal n) : isDigit b = true ∨ b = 0x2d := by
  cases n with
  | ofNat n => exact .inl (isDigit_of_mem_decimalNat n b h)
  | negSucc n =>
    rcases List.mem_cons.mp h with rfl | h
    · exact .inr rfl
    · exact .inl (isDigit_of_mem_decimalNat _ b h)

theorem decimal_ne_nil (n : Int) : decimal n ≠ [] := by
  cases n with
  | ofNat n =>
    obtain ⟨b, s, hs, -⟩ := exists_decimalNat n
    rw [decimal, hs]
    exact List.cons_ne_nil _ _
  | negSucc n => exact List.cons_ne_nil _ _

theorem readDigits_append (n : Nat) (s t : Bytes) :
    readDigits n (s ++ t) = readDigits n s >>= fun m => readDigits m t := by
  induction s generalizing n with
  | nil => rfl
  | cons b s ih =>
    simp only [List.cons_append, readDigits]
    split
    · split
      · exact ih _
      · rfl
    · rfl

theorem readDigits_digit {n d : Nat} (hd : d < 10) (h : n * 10 + d < UInt64.size) :
    readDigits n [hexDigit d] = .ok (n * 10 + d) := by
  simp [readDigits, isDigit_hexDigit hd, digitValue_hexDigit hd, h]

theorem readDigits_decimalNat {n : Nat} (h : n < UInt64.size) :
    readDigits 0 (decimalNat n) = .ok n := by
  refine decimalNat_induction (P := fun n s => n < UInt64.size → readDigits 0 s = .ok n) ?_ ?_ n h
  · intro d hd hsize
    rw [readDigits_digit hd (by omega)]
    simp
  · intro n d s _ hd hs hsize
    rw [readDigits_append, hs (by omega)]
    exact readDigits_digit hd hsize

theorem readNat_decimalNat {n : Nat} (h : n < UInt64.size) : readNat (decimalNat n) = .ok n := by
  obtain ⟨b, s, hs, -, -⟩ := exists_decimalNat n
  have := readDigits_decimalNat h
  rw [hs] at this ⊢
  exact this

theorem digit_ne {b c : UInt8} (hb : isDigit b = true) (hc : isDigit c = false) : b ≠ c := by
  rintro rfl
  rw [hb] at hc
  cases hc

theorem readInt64_decimal (n : Int64) : readInt64 (decimal n.toInt) = .ok n := by
  have hlow := Int64.le_toInt n
  have hhigh := Int64.toInt_lt n
  cases hn : n.toInt with
  | ofNat m =>
    rw [hn, Int.ofNat_eq_natCast] at hhigh
    have hm : m < signedBound := by
      unfold signedBound
      omega
    obtain ⟨b, s, hs, hb, -⟩ := exists_decimalNat m
    have hread := readNat_decimalNat (n := m) (Nat.lt_trans hm (by decide))
    rw [decimal]
    rw [hs] at hread ⊢
    have hminus := digit_ne hb (show isDigit 0x2d = false by decide)
    have hplus := digit_ne hb (show isDigit 0x2b = false by decide)
    have : Int64.ofInt m = n := by
      rw [← Int.ofNat_eq_natCast, ← hn, Int64.ofInt_toInt]
    simp [readInt64, hminus, hplus, hread, hm, this]
  | negSucc m =>
    rw [hn] at hlow
    have hm : m + 1 ≤ signedBound := by
      unfold signedBound
      omega
    have hread := readNat_decimalNat (n := m + 1) (Nat.lt_of_le_of_lt hm (by decide))
    have : Int64.ofInt (-((m + 1 : Nat) : Int)) = n := by
      rw [← Int.negSucc_eq_neg_ofNat_iff.mpr (rfl : m + 1 = m + 1), ← hn, Int64.ofInt_toInt]
    simp only [readInt64, decimal, hread, if_true, hm, this]

/-! ## Patterns -/

namespace Pattern

/-- What follows a number that something else than a digit stands behind. -/
theorem afterNat_decimalNat_append (n : Nat) {t : Bytes} (ht : ∀ b ∈ t.head?, isDigit b = false) :
    afterNat (decimalNat n ++ t) = some t := by
  obtain ⟨b, s, hs, hb, hzero⟩ := exists_decimalNat n
  have hdigits : ∀ c ∈ s, isDigit c = true := by
    intro c hc
    exact isDigit_of_mem_decimalNat n c (by rw [hs]; exact List.mem_cons_of_mem _ hc)
  have hrest : (s ++ t).dropWhile isDigit = t := by
    rw [List.dropWhile_append_of_pos hdigits]
    cases t with
    | nil => rfl
    | cons c t => rw [List.dropWhile_cons_of_neg (by simpa using ht c rfl)]
  rw [hs, List.cons_append]
  by_cases h : b = 0x30
  · subst h
    rw [(hzero rfl).2]
    rfl
  · rw [afterNat, if_pos hb, hrest]
    exact h

theorem afterNat_decimalNat (n : Nat) : afterNat (decimalNat n) = some [] := by
  have := afterNat_decimalNat_append n (t := []) (by simp)
  rwa [List.append_nil] at this

theorem accepts_size_decimal {n : Nat} (h : 0 < n) : size.accepts (decimalNat n) = true := by
  obtain ⟨b, s, hs, -, hzero⟩ := exists_decimalNat n
  have hb : b ≠ 0x30 := fun hb => absurd (hzero hb).1 h.ne'
  have hall := afterNat_decimalNat n
  rw [hs] at hall ⊢
  rw [accepts, hall]
  · rfl
  · intro tail hcons
    exact hb (List.cons.inj hcons).1

theorem unsigned_decimal (n : Int) : ∃ m, unsigned (decimal n) = decimalNat m := by
  cases n with
  | ofNat m =>
    obtain ⟨b, s, hs, hb, -⟩ := exists_decimalNat m
    refine ⟨m, ?_⟩
    rw [decimal, hs, unsigned]
    intro tail hcons
    exact digit_ne hb (show isDigit 0x2d = false by decide) (List.cons.inj hcons).1
  | negSucc m => exact ⟨m + 1, rfl⟩

theorem accepts_int (n : Int) : int.accepts (decimal n) = true := by
  obtain ⟨m, hm⟩ := unsigned_decimal n
  rw [accepts, hm, afterNat_decimalNat]
  rfl

/-- An integer is a number without a fraction. -/
theorem accepts_float (n : Int) : float.accepts (decimal n) = true := by
  obtain ⟨m, hm⟩ := unsigned_decimal n
  rw [accepts, hm, afterNat_decimalNat]
  rfl

end Pattern
end NetImage
