import Mathlib.Tactic
import NetImage.Build.Layout

/-!
# NetImage.Proofs.Build.Layout

Moving the channel of a tensor last is a permutation of its elements that can be read off the
indices.

* `ChannelsInnermost`: the two orders of one tensor, index by index.
* `channelsInnermost_of_channelsLast`: moving the channel last relates its values so.
-/

namespace NetImage

/-- The elements of an `n` by `c` by `h` by `w` tensor, once with the channel outside height and width
and once with the channel innermost. -/
structure ChannelsInnermost {α : Type} (n c h w : Nat) (values stored : List α) : Prop where
  length : stored.length = values.length
  index : ∀ i k y x : Nat, i < n → k < c → y < h → x < w →
    stored[((i * h + y) * w + x) * c + k]? = values[((i * c + k) * h + y) * w + x]?

variable {α : Type}

theorem block_lt {i j m n : Nat} (hi : i < n) (hj : j < m) : i * m + j < n * m := by
  calc
    i * m + j < i * m + m := by omega
    _ = (i + 1) * m := by ring
    _ ≤ n * m := Nat.mul_le_mul_right m hi

theorem length_flatMap_range {m : Nat} {f : Nat → List α} (hf : ∀ i, (f i).length = m) (n : Nat) :
    ((List.range n).flatMap f).length = n * m := by
  induction n with
  | zero => simp
  | succ n ih =>
    rw [List.range_succ, List.flatMap_append, List.length_append, ih, List.flatMap_singleton, hf]
    ring

/-- Blocks of one length: an index is that of the block and that within it. -/
theorem getElem?_flatMap_range {m n : Nat} {f : Nat → List α} (hf : ∀ i, (f i).length = m)
    {i j : Nat} (hi : i < n) (hj : j < m) :
    ((List.range n).flatMap f)[i * m + j]? = (f i)[j]? := by
  induction n with
  | zero => omega
  | succ n ih =>
    rw [List.range_succ, List.flatMap_append]
    rcases Nat.lt_succ_iff_lt_or_eq.mp hi with hlt | rfl
    · rw [List.getElem?_append_left (by rw [length_flatMap_range hf]; exact block_lt hlt hj), ih hlt]
    · rw [List.getElem?_append_right (by rw [length_flatMap_range hf]; omega),
        length_flatMap_range hf, Nat.add_sub_cancel_left]
      simp

variable {n c h w : Nat}

theorem length_channelsLastOrder : (channelsLastOrder n c h w).length = n * (h * (w * c)) := by
  unfold channelsLastOrder
  exact length_flatMap_range (fun i => length_flatMap_range (fun y =>
    length_flatMap_range (fun x => by simp) w) h) n

theorem getElem?_channelsLastOrder {i k y x : Nat} (hi : i < n) (hk : k < c) (hy : y < h)
    (hx : x < w) :
    (channelsLastOrder n c h w)[((i * h + y) * w + x) * c + k]? =
      some (nchwIndex c h w i k y x) := by
  have hxk : x * c + k < w * c := block_lt hx hk
  have hyx : y * (w * c) + (x * c + k) < h * (w * c) := block_lt hy hxk
  have hplace : ((i * h + y) * w + x) * c + k =
      i * (h * (w * c)) + (y * (w * c) + (x * c + k)) := by ring
  unfold channelsLastOrder
  rw [hplace, getElem?_flatMap_range (fun i => length_flatMap_range (fun y =>
      length_flatMap_range (fun x => by simp) w) h) hi hyx,
    getElem?_flatMap_range (fun y => length_flatMap_range (fun x => by simp) w) hy hxk,
    getElem?_flatMap_range (fun x => by simp) hx hk, List.getElem?_map, List.getElem?_range hk]
  rfl

theorem nchwIndex_lt {i k y x : Nat} (hi : i < n) (hk : k < c) (hy : y < h) (hx : x < w) :
    nchwIndex c h w i k y x < n * c * h * w :=
  block_lt (block_lt (block_lt hi hk) hy) hx

theorem channelsInnermost_of_channelsLast {zero : α} {values stored : List α}
    (hlen : values.length = n * c * h * w)
    (heq : channelsLast zero values n c h w = some stored) :
    ChannelsInnermost n c h w values stored := by
  unfold channelsLast at heq
  simp only [hlen, lt_irrefl, if_false, Nat.sub_self, List.replicate_zero, List.append_nil] at heq
  cases heq
  refine ⟨?_, ?_⟩
  · rw [List.length_map, length_channelsLastOrder, hlen]
    ring
  · intro i k y x hi hk hy hx
    have hlt := nchwIndex_lt hi hk hy hx
    rw [← hlen] at hlt
    rw [List.getElem?_map, getElem?_channelsLastOrder hi hk hy hx, Option.map_some]
    simp only [nchwIndex] at hlt ⊢
    rw [List.getElem?_eq_getElem hlt]
    simp [Array.getD, hlt]

end NetImage
