import NetImage.Text.Blank
import Mathlib.Tactic

/-!
# NetImage.Proofs.Text.Rune

Reading a byte string as runes loses nothing and is local: a byte that cannot continue a sequence
starts a new rune, whatever stands before it.

* `bytes_runes`: the bytes of the runes are the string.
* `runes_append`: a string can be read in two parts where the second starts a new rune.
* `runes_of_suffix`: from any rune on, the rest is read as it would be alone.
* `count_lineFeed`: line breaks can be counted as bytes or as runes.
* `length_runes_le`, `length_trim_le`: neither makes a string longer.
-/

namespace NetImage
namespace Rune

theorem readFrom_eq (skip : Nat) (s : Bytes) (done : List Rune) :
    readFrom skip s done = done.reverse ++ runes (s.drop skip) := by
  induction s generalizing skip done with
  | nil => cases skip <;> simp [readFrom, runes]
  | cons b s ih =>
    cases skip with
    | zero =>
      rw [List.drop_zero, runes, readFrom, readFrom, ih, ih]
      simp
    | succ skip =>
      rw [readFrom, ih, List.drop_succ_cons]

theorem first_bytes (b : UInt8) (s : Bytes) :
    (first b s).bytes = b :: s.take ((first b s).bytes.length - 1) := by
  rcases s with _ | ⟨c, _ | ⟨d, _ | ⟨e, s⟩⟩⟩
  all_goals
    simp only [first]
    repeat' split
    all_goals simp [malformed]

theorem first_ascii {b : UInt8} (h : b < 0x80) (s : Bytes) : first b s = ⟨b.toNat, [b]⟩ := by
  simp [first, h]

theorem first_of_continuation {b : UInt8} (h : isContinuation b = true) (s : Bytes) :
    first b s = malformed b := by
  simp only [isContinuation, Bool.and_eq_true, decide_eq_true_eq, UInt8.le_iff_toNat_le,
    UInt8.lt_iff_toNat_lt] at h
  have h₁ : ¬b < 0x80 := by
    rw [UInt8.lt_iff_toNat_lt]
    exact Nat.not_lt.mpr h.1
  have h₂ : b < 0xc2 := by
    rw [UInt8.lt_iff_toNat_lt]
    exact Nat.lt_trans h.2 (by decide)
  simp [first, h₁, h₂]

theorem le_shiftIn {lead : Nat} (h : 2 ≤ lead) (b : UInt8) : 0x80 ≤ shiftIn lead b := by
  unfold shiftIn
  omega

/-- A rune that is not ASCII has no ASCII byte. -/
theorem first_wide {b : UInt8} (h : ¬b < 0x80) (s : Bytes) :
    0x80 ≤ (first b s).code ∧ ∀ c ∈ (first b s).bytes, 0x80 ≤ c := by
  have hb : 0x80 ≤ b := UInt8.not_lt.mp h
  have hcont : ∀ c, isContinuation c = true → 0x80 ≤ c := by
    intro c hc
    simp only [isContinuation, Bool.and_eq_true, decide_eq_true_eq] at hc
    exact hc.1
  have hmal : 0x80 ≤ (malformed b).code ∧ ∀ c ∈ (malformed b).bytes, 0x80 ≤ c := by
    simp [malformed, replacement, hb]
  simp only [first, if_neg h]
  split
  · exact hmal
  rename_i hlead
  split
  · split
    · split
      · rename_i hc
        refine ⟨le_shiftIn ?_ _, by simp [hb, hcont _ hc]⟩
        rw [UInt8.lt_iff_toNat_lt] at hlead
        exact Nat.le_sub_of_add_le (Nat.not_lt.mp hlead)
      · exact hmal
    · exact hmal
  split
  · split
    · split
      · rename_i hc
        simp only [Bool.and_eq_true, decide_eq_true_eq] at hc
        refine ⟨le_trans (by decide) hc.1.2, ?_⟩
        simp [hb, hcont _ hc.1.1.1, hcont _ hc.1.1.2]
      · exact hmal
    · exact hmal
  split
  · split
    · split
      · rename_i hc
        simp only [Bool.and_eq_true, decide_eq_true_eq] at hc
        refine ⟨le_trans (by decide) hc.1.2, ?_⟩
        simp [hb, hcont _ hc.1.1.1.1, hcont _ hc.1.1.1.2, hcont _ hc.1.1.2]
      · exact hmal
    · exact hmal
  · exact hmal

/-- What follows a rune does not matter if it cannot continue the rune. -/
theorem first_append {c : UInt8} (hc : isContinuation c = false) (b : UInt8) (s t : Bytes) :
    first b (s ++ c :: t) = first b s := by
  rcases s with _ | ⟨x, _ | ⟨y, _ | ⟨z, s⟩⟩⟩
  all_goals
    rcases t with _ | ⟨d, _ | ⟨e, t⟩⟩
    all_goals simp [first, hc]

/-- A line break is one rune of one byte, and no other rune holds that byte. -/
theorem count_lineFeed_first (b : UInt8) (s : Bytes) :
    (first b s).bytes.count 0x0a = if (first b s).code = lineFeed then 1 else 0 := by
  by_cases h : b < 0x80
  · rw [first_ascii h, List.count_singleton]
    by_cases hb : b = 0x0a
    · subst hb
      decide
    · have : b.toNat ≠ lineFeed := fun heq => hb (UInt8.toNat_inj.mp heq)
      simp [hb, this]
  · obtain ⟨hcode, hbytes⟩ := first_wide h s
    have hne : (first b s).code ≠ lineFeed := by
      unfold lineFeed
      omega
    rw [if_neg hne, List.count_eq_zero]
    intro hmem
    exact absurd (hbytes _ hmem) (by decide)

end Rune

theorem runes_cons (b : UInt8) (s : Bytes) :
    runes (b :: s) = Rune.first b s :: runes (s.drop ((Rune.first b s).bytes.length - 1)) := by
  rw [runes, Rune.readFrom, Rune.readFrom_eq]
  rfl

theorem runes_ascii {b : UInt8} (h : b < 0x80) (s : Bytes) :
    runes (b :: s) = ⟨b.toNat, [b]⟩ :: runes s := by
  rw [runes_cons, Rune.first_ascii h]
  rfl

theorem bytes_runes (s : Bytes) : (runes s).flatMap Rune.bytes = s := by
  induction hn : s.length using Nat.strong_induction_on generalizing s with
  | _ n ih =>
    cases s with
    | nil => rfl
    | cons b s =>
      have hlen : (s.drop ((Rune.first b s).bytes.length - 1)).length < n := by
        rw [← hn, List.length_drop, List.length_cons]
        omega
      rw [runes_cons, List.flatMap_cons, ih _ hlen _ rfl]
      calc (Rune.first b s).bytes ++ s.drop ((Rune.first b s).bytes.length - 1)
          = (b :: s.take ((Rune.first b s).bytes.length - 1))
              ++ s.drop ((Rune.first b s).bytes.length - 1) := by rw [← Rune.first_bytes]
        _ = b :: s := by rw [List.cons_append, List.take_append_drop]

theorem runes_append {c : UInt8} (hc : Rune.isContinuation c = false) (s t : Bytes) :
    runes (s ++ c :: t) = runes s ++ runes (c :: t) := by
  induction hn : s.length using Nat.strong_induction_on generalizing s with
  | _ n ih =>
    cases s with
    | nil => rfl
    | cons b s =>
      -- the rune at the front takes its bytes from `s`
      have hle : (Rune.first b s).bytes.length - 1 ≤ s.length := by
        have := congrArg List.length (Rune.first_bytes b s)
        rw [List.length_cons, List.length_take] at this
        omega
      have hlen : (s.drop ((Rune.first b s).bytes.length - 1)).length < n := by
        rw [← hn, List.length_drop, List.length_cons]
        omega
      rw [List.cons_append, runes_cons, runes_cons, Rune.first_append hc, List.cons_append,
        List.drop_append_of_le_length hle, ih _ hlen _ rfl]

theorem runes_of_suffix {s : Bytes} {rs ts : List Rune} (h : runes s = rs ++ ts) :
    runes (ts.flatMap Rune.bytes) = ts := by
  induction rs generalizing s with
  | nil =>
    rw [List.nil_append] at h
    rw [← h, bytes_runes]
  | cons r rs ih =>
    cases s with
    | nil => cases h
    | cons b s =>
      rw [runes_cons, List.cons_append] at h
      exact ih (List.cons.inj h).2

theorem exists_of_mem_runes {s : Bytes} {r : Rune} (h : r ∈ runes s) :
    ∃ b t, r = Rune.first b t := by
  obtain ⟨rs, ts, hs⟩ := List.append_of_mem h
  have := runes_of_suffix hs
  cases hb : (r :: ts).flatMap Rune.bytes with
  | nil =>
    rw [hb] at this
    cases this
  | cons b t =>
    rw [hb, runes_cons] at this
    exact ⟨b, t, (List.cons.inj this).1.symm⟩

theorem count_lineFeed {s : Bytes} {rs : List Rune} (h : ∀ r ∈ rs, r ∈ runes s) :
    (rs.flatMap Rune.bytes).count 0x0a = rs.countP fun r => r.code == lineFeed := by
  induction rs with
  | nil => rfl
  | cons r rs ih =>
    obtain ⟨b, t, rfl⟩ := exists_of_mem_runes (h r List.mem_cons_self)
    rw [List.flatMap_cons, List.count_append, List.countP_cons,
      ih fun r hr => h r (List.mem_cons_of_mem _ hr), Rune.count_lineFeed_first]
    simp [Nat.add_comm]

theorem length_runes_le (s : Bytes) : (runes s).length ≤ s.length := by
  have hle : ∀ rs : List Rune, (∀ r ∈ rs, r ∈ runes s) →
      rs.length ≤ (rs.flatMap Rune.bytes).length := by
    intro rs hrs
    induction rs with
    | nil => exact Nat.le_refl _
    | cons r rs ih =>
      rw [List.forall_mem_cons] at hrs
      obtain ⟨b, t, rfl⟩ := exists_of_mem_runes hrs.1
      have := ih hrs.2
      rw [List.flatMap_cons, Rune.first_bytes, List.length_append, List.length_cons,
        List.length_cons]
      omega
  calc (runes s).length ≤ ((runes s).flatMap Rune.bytes).length := hle _ fun _ h => h
    _ = s.length := by rw [bytes_runes]

theorem length_trim_le (s : Bytes) : (trim s).length ≤ s.length := by
  let blank : Rune → Bool := fun r => isBlank r.code
  have hsub : (((runes s).dropWhile blank).reverse.dropWhile blank).reverse.Sublist (runes s) := by
    have h := (List.dropWhile_sublist (l := ((runes s).dropWhile blank).reverse) blank).reverse
    rw [List.reverse_reverse] at h
    exact h.trans (List.dropWhile_sublist blank)
  calc (trim s).length ≤ ((runes s).flatMap Rune.bytes).length :=
        (List.Sublist.flatMap hsub Rune.bytes).length_le
    _ = s.length := by rw [bytes_runes]

end NetImage
