import NetImage.Bytes
import Mathlib.Data.List.TakeWhile
import Mathlib.Tactic

/-!
# NetImage.Proofs.Text.Pieces

Strings and their pieces. Splitting at a separator and joining with it undo each other, as long as no
piece holds the separator.

* `Bytes.join_split`, `Bytes.split_join`: the two directions.
* `Bytes.not_mem_of_mem_split`: no piece holds the separator.
* `Bytes.split_lines`: the lines of a text that ends its last line.
* `Bytes.cut_eq_some`: the two sides of the first separator.
-/

namespace NetImage
namespace Bytes

theorem split_eq_splitOn (sep : UInt8) (s : Bytes) : s.split sep = s.splitOn sep := by
  induction s with
  | nil => rfl
  | cons b s ih =>
    rw [List.splitOn, List.splitOnP_cons_eq_if_modifyHead, ← List.splitOn, ← ih]
    cases hs : split sep s with
    | nil => exact absurd (ih.symm.trans hs) (List.splitOn_ne_nil sep s)
    | cons piece rest =>
      simp only [split] at hs
      by_cases hb : b = sep
      · simp [split, hs, hb]
      · simp [split, hs, hb]

theorem split_ne_nil (sep : UInt8) (s : Bytes) : s.split sep ≠ [] := by
  rw [split_eq_splitOn]
  exact List.splitOn_ne_nil sep s

theorem not_mem_of_mem_split {sep : UInt8} {s p : Bytes} (h : p ∈ s.split sep) : sep ∉ p := by
  induction s generalizing p with
  | nil =>
    obtain rfl := List.mem_singleton.mp h
    exact List.not_mem_nil
  | cons b s ih =>
    cases hs : split sep s with
    | nil => exact absurd hs (split_ne_nil sep s)
    | cons piece rest =>
      rw [hs] at ih
      have hpiece := ih List.mem_cons_self
      simp only [split] at hs
      by_cases hb : b = sep
      · simp only [split, List.foldr_cons, hs, if_pos hb, List.mem_cons] at h
        rcases h with rfl | h
        · exact List.not_mem_nil
        · exact ih (List.mem_cons.mpr h)
      · simp only [split, List.foldr_cons, hs, if_neg hb, List.mem_cons] at h
        rcases h with rfl | h
        · exact fun hmem => (List.mem_cons.mp hmem).elim (fun heq => hb heq.symm) hpiece
        · exact ih (List.mem_cons_of_mem _ h)

theorem join_split (sep : UInt8) (s : Bytes) : join [sep] (s.split sep) = s := by
  rw [split_eq_splitOn, join, List.intercalate_splitOn]

theorem split_join {sep : UInt8} {pieces : List Bytes} (h : ∀ p ∈ pieces, sep ∉ p)
    (hne : pieces ≠ []) : (join [sep] pieces).split sep = pieces := by
  rw [split_eq_splitOn, join, List.splitOn_intercalate sep h hne]

theorem join_concat (sep : Bytes) (pieces : List Bytes) (last : Bytes) :
    join sep (pieces ++ [last]) = pieces.flatMap (· ++ sep) ++ last := by
  induction pieces with
  | nil => simp [join]
  | cons p pieces ih =>
    have hne : pieces ++ [last] ≠ [] := by simp
    obtain ⟨q, rest, hq⟩ := List.exists_cons_of_ne_nil hne
    rw [List.cons_append, hq, join, List.intercalate_cons_cons, ← join, ← hq, ih]
    simp

theorem join_ne_nil {sep : Bytes} {pieces : List Bytes} (hne : pieces ≠ [])
    (h : ∀ p ∈ pieces, p ≠ []) : join sep pieces ≠ [] := by
  cases pieces with
  | nil => exact absurd rfl hne
  | cons p pieces =>
    cases pieces with
    | nil => simpa [join] using h p List.mem_cons_self
    | cons q pieces =>
      simp [join, List.intercalate, List.intersperse, h p List.mem_cons_self]

theorem mem_join {sep : Bytes} {pieces : List Bytes} {b : UInt8} (h : b ∈ join sep pieces) :
    b ∈ sep ∨ ∃ p ∈ pieces, b ∈ p := by
  induction pieces with
  | nil => cases h
  | cons p pieces ih =>
    cases pieces with
    | nil =>
      refine .inr ⟨p, List.mem_cons_self, ?_⟩
      simpa [join] using h
    | cons q pieces =>
      rw [join, List.intercalate_cons_cons, List.mem_append, List.mem_append] at h
      rcases h with (h | h) | h
      · exact .inr ⟨p, List.mem_cons_self, h⟩
      · exact .inl h
      · rcases ih h with h | ⟨r, hr, h⟩
        · exact .inl h
        · exact .inr ⟨r, List.mem_cons_of_mem _ hr, h⟩

theorem split_append_cons (sep : UInt8) (s t : Bytes) :
    Bytes.split sep (s ++ sep :: t) = Bytes.split sep s ++ Bytes.split sep t := by
  rw [split_eq_splitOn, split_eq_splitOn, split_eq_splitOn]
  exact List.splitOnP_append_cons s t (by simp)

theorem split_append_sep {sep : UInt8} {p : Bytes} (h : sep ∉ p) (s : Bytes) :
    (p ++ sep :: s).split sep = p :: s.split sep := by
  rw [split_append_cons, split_eq_splitOn sep p, List.splitOn_eq_singleton h]
  rfl

/-- The lines of a text, each of them ended; what follows the last one is empty. -/
theorem split_lines {sep : UInt8} {lines : List Bytes} (h : ∀ l ∈ lines, sep ∉ l) :
    Bytes.split sep (lines.flatMap fun l => l ++ [sep]) = lines ++ [[]] := by
  induction lines with
  | nil => rfl
  | cons l lines ih =>
    rw [List.forall_mem_cons] at h
    rw [List.flatMap_cons, List.append_assoc, List.singleton_append, split_append_sep h.1, ih h.2]
    rfl

theorem cut_eq_some {sep : UInt8} {s l v : Bytes} :
    cut sep s = some (l, v) ↔ s = l ++ sep :: v ∧ sep ∉ l := by
  unfold cut
  constructor
  · intro h
    cases hrest : s.dropWhile (· != sep) with
    | nil => simp [hrest] at h
    | cons b rest =>
      simp only [hrest, Option.some.injEq, Prod.mk.injEq] at h
      obtain ⟨rfl, rfl⟩ := h
      have hb : b = sep := by
        have := List.head?_dropWhile_not (fun x => x != sep) s
        rw [hrest] at this
        simpa using this
      subst hb
      refine ⟨?_, ?_⟩
      · rw [← hrest, List.takeWhile_append_dropWhile]
      · intro hmem
        simpa using List.mem_takeWhile_imp hmem
  · rintro ⟨rfl, hfirst⟩
    have hl : ∀ b ∈ l, (b != sep) = true := by
      intro b hb
      rw [bne_iff_ne]
      rintro rfl
      exact hfirst hb
    rw [List.dropWhile_append_of_pos hl, List.takeWhile_append_of_pos hl]
    simp

/-- What stands before the first separator is determined by the text. -/
theorem eq_of_separated {sep : UInt8} {x y rest : Bytes} (hx : sep ∉ x) (hy : sep ∉ y)
    (h : x ++ [sep] <+: y ++ sep :: rest) : x = y := by
  obtain ⟨t, ht⟩ := h
  rw [List.append_assoc, List.singleton_append] at ht
  have hcut := cut_eq_some.mpr ⟨ht.symm, hx⟩
  rw [cut_eq_some.mpr ⟨rfl, hy⟩] at hcut
  exact (Prod.mk.inj (Option.some.inj hcut)).1.symm

end Bytes
end NetImage
