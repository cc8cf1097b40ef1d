import NetImage.Proofs.Build.Layout

/-!
# NetImage.Proofs.Build.Rotation

Moving the channel last rotates the last three axes of a tensor. A loop over the places of the tensor
moves each value to a place of its own, so nothing is lost or written twice, and three turns bring
every value back.

* `places`: the places of a tensor in the order of the loop.
* `nchwIndex_inj`, `exists_nchwIndex`: the places of a tensor are its indices.
* `Move.run`: the loop, with indices of 64 bits that may miss the values.
* `channelsLast_rotates`: what the loop does.
-/

namespace NetImage

/-! ## Places and indices -/

/-- The places of an `a` by `b` by `c` by `d` tensor, the last number running fastest. -/
def places (a b c d : Nat) : List (Nat × Nat × Nat × Nat) :=
  List.range a ×ˢ (List.range b ×ˢ (List.range c ×ˢ List.range d))

section Index

variable {a b c d : Nat}

theorem mem_places {p : Nat × Nat × Nat × Nat} :
    p ∈ places a b c d ↔ p.1 < a ∧ p.2.1 < b ∧ p.2.2.1 < c ∧ p.2.2.2 < d := by
  obtain ⟨i, j, k, l⟩ := p
  simp [places]

theorem nodup_places : (places a b c d).Nodup :=
  List.nodup_range.product (List.nodup_range.product (List.nodup_range.product List.nodup_range))

theorem block_inj {i i' j j' m : Nat} (hj : j < m) (hj' : j' < m) (h : i * m + j = i' * m + j') :
    i = i' ∧ j = j' := by
  have hm : 0 < m := by omega
  have hdiv := congrArg (· / m) h
  have hmod := congrArg (· % m) h
  simp only [Nat.mul_comm _ m, Nat.mul_add_div hm, Nat.div_eq_of_lt hj, Nat.div_eq_of_lt hj',
    Nat.mul_add_mod, Nat.mod_eq_of_lt hj, Nat.mod_eq_of_lt hj', Nat.add_zero] at hdiv hmod
  exact ⟨hdiv, hmod⟩

theorem exists_block {p m n : Nat} (hp : p < n * m) : ∃ i j, i < n ∧ j < m ∧ i * m + j = p := by
  have hm : 0 < m := Nat.pos_of_mul_pos_left (Nat.zero_lt_of_lt hp)
  exact ⟨p / m, p % m, (Nat.div_lt_iff_lt_mul hm).mpr hp, Nat.mod_lt p hm, Nat.div_add_mod' p m⟩

theorem nchwIndex_inj {i i' j j' k k' l l' : Nat} (hj : j < b) (hj' : j' < b) (hk : k < c)
    (hk' : k' < c) (hl : l < d) (hl' : l' < d)
    (h : nchwIndex b c d i j k l = nchwIndex b c d i' j' k' l') :
    i = i' ∧ j = j' ∧ k = k' ∧ l = l' := by
  obtain ⟨hrow, rfl⟩ := block_inj hl hl' h
  obtain ⟨hplane, rfl⟩ := block_inj hk hk' hrow
  obtain ⟨rfl, rfl⟩ := block_inj hj hj' hplane
  exact ⟨rfl, rfl, rfl, rfl⟩

theorem exists_nchwIndex {p : Nat} (hp : p < a * b * c * d) :
    ∃ i j k l, i < a ∧ j < b ∧ k < c ∧ l < d ∧ nchwIndex b c d i j k l = p := by
  obtain ⟨q, l, hq, hl, rfl⟩ := exists_block hp
  obtain ⟨r, k, hr, hk, rfl⟩ := exists_block hq
  obtain ⟨i, j, hi, hj, rfl⟩ := exists_block hr
  exact ⟨i, j, k, l, hi, hj, hk, hl, rfl⟩

/-- Numbers that are given once to the elements of a list are those of a range. -/
theorem map_perm_range {β : Type} {xs : List β} {f : β → Nat} {n : Nat} (hxs : xs.Nodup)
    (hinj : ∀ x ∈ xs, ∀ y ∈ xs, f x = f y → x = y) (hf : ∀ p, (∃ x ∈ xs, f x = p) ↔ p < n) :
    (xs.map f).Perm (List.range n) := by
  refine (List.perm_ext_iff_of_nodup (hxs.map_on hinj) List.nodup_range).mpr ?_
  intro p
  rw [List.mem_map, List.mem_range, hf]

end Index

variable {α : Type} {n c h w : Nat}

/-- The index of a place with the channel last. -/
def nhwcIndex (c h w i k y x : Nat) : Nat := nchwIndex h w c i y x k

/-- The indices with the channel last of the places, channel first, are all indices. -/
theorem map_nhwcIndex_perm :
    ((places n c h w).map fun p => nhwcIndex c h w p.1 p.2.1 p.2.2.1 p.2.2.2).Perm
      (List.range (n * c * h * w)) := by
  have hsize : n * c * h * w = n * h * w * c := by ring
  refine map_perm_range nodup_places ?_ ?_
  · rintro ⟨i, k, y, x⟩ hp ⟨i', k', y', x'⟩ hp' heq
    obtain ⟨-, hk, hy, hx⟩ := mem_places.mp hp
    obtain ⟨-, hk', hy', hx'⟩ := mem_places.mp hp'
    obtain ⟨rfl, rfl, rfl, rfl⟩ := nchwIndex_inj hy hy' hx hx' hk hk' heq
    rfl
  · intro p
    rw [hsize]
    constructor
    · rintro ⟨⟨i, k, y, x⟩, hp, rfl⟩
      obtain ⟨hi, hk, hy, hx⟩ := mem_places.mp hp
      exact nchwIndex_lt hi hy hx hk
    · intro hp
      obtain ⟨i, y, x, k, hi, hy, hx, hk, rfl⟩ := exists_nchwIndex hp
      exact ⟨(i, k, y, x), mem_places.mpr ⟨hi, hk, hy, hx⟩, rfl⟩

theorem channelsLastOrder_eq : channelsLastOrder n c h w =
    (places n h w c).map fun p => nchwIndex c h w p.1 p.2.2.2 p.2.1 p.2.2.1 := by
  simp [channelsLastOrder, places, SProd.sprod, List.product, List.map_flatMap, Function.comp_def]

theorem channelsLastOrder_perm : (channelsLastOrder n c h w).Perm (List.range (n * c * h * w)) := by
  rw [channelsLastOrder_eq]
  refine map_perm_range nodup_places ?_ ?_
  · rintro ⟨i, y, x, k⟩ hp ⟨i', y', x', k'⟩ hp' heq
    obtain ⟨-, hy, hx, hk⟩ := mem_places.mp hp
    obtain ⟨-, hy', hx', hk'⟩ := mem_places.mp hp'
    obtain ⟨rfl, rfl, rfl, rfl⟩ := nchwIndex_inj hk hk' hy hy' hx hx' heq
    rfl
  · intro p
    constructor
    · rintro ⟨⟨i, y, x, k⟩, hp, rfl⟩
      obtain ⟨hi, hy, hx, hk⟩ := mem_places.mp hp
      exact nchwIndex_lt hi hk hy hx
    · intro hp
      obtain ⟨i, k, y, x, hi, hk, hy, hx, rfl⟩ := exists_nchwIndex hp
      exact ⟨(i, y, x, k), mem_places.mpr ⟨hi, hy, hx, hk⟩, rfl⟩

/-! ## The loop -/

/-- The index of a place in 64 bits. -/
def index64 (b c d i j k l : Nat) : Int64 :=
  ((Int64.ofNat i * Int64.ofNat b + Int64.ofNat j) * Int64.ofNat c + Int64.ofNat k) * Int64.ofNat d
    + Int64.ofNat l

theorem index64_eq (b c d i j k l : Nat) :
    index64 b c d i j k l = Int64.ofNat (nchwIndex b c d i j k l) := by
  simp only [index64, nchwIndex, Int64.ofNat_add, Int64.ofNat_mul]

/-- A value is taken from one index and written to another. -/
structure Move where
  source : Int64
  target : Int64

namespace Move

/-- Both indices are among those of `size` values. -/
structure InRange (m : Move) (size : Nat) : Prop where
  source_nonneg : 0 ≤ m.source.toInt
  source_lt : m.source.toInt < size
  target_nonneg : 0 ≤ m.target.toInt
  target_lt : m.target.toInt < size

/-- The value at an index, unless the index is out of range. -/
def valueAt (xs : List α) (i : Int64) : Option α :=
  if i.toInt < 0 then none else xs[i.toInt.toNat]?

/-- Makes one move. There is no result if an index is out of range. -/
def make (values out : List α) (m : Move) : Option (List α) :=
  match valueAt values m.source, valueAt out m.target with
  | some v, some _ => some (out.set m.target.toInt.toNat v)
  | _, _ => none

/-- Makes moves one after the other. -/
def run (values : List α) (moves : List Move) (out : List α) : Option (List α) :=
  moves.foldlM (make values) out

theorem valueAt_of_nonneg {i : Int64} (hi : 0 ≤ i.toInt) (xs : List α) :
    valueAt xs i = xs[i.toInt.toNat]? := by
  rw [valueAt, if_neg (by omega)]

theorem exists_valueAt {i : Int64} {xs : List α} (hi : 0 ≤ i.toInt) (hlt : i.toInt < xs.length) :
    ∃ v, valueAt xs i = some v := by
  rw [valueAt_of_nonneg hi]
  exact ⟨_, List.getElem?_eq_getElem (by omega)⟩

theorem make_of_inRange {values out : List α} {m : Move} (hm : m.InRange values.length)
    (hout : out.length = values.length) :
    ∃ v, valueAt values m.source = some v ∧
      make values out m = some (out.set m.target.toInt.toNat v) := by
  obtain ⟨v, hv⟩ := exists_valueAt hm.source_nonneg hm.source_lt
  have hlt : m.target.toInt < out.length := hout ▸ hm.target_lt
  obtain ⟨u, hu⟩ := exists_valueAt hm.target_nonneg hlt
  exact ⟨v, hv, by simp only [make, hv, hu]⟩

/-- Moves in range succeed. If no two of them have the same target, each value that is moved stands at
its target at the end; what is no target keeps its value. -/
theorem run_of_inRange {values : List α} {moves : List Move} {out : List α}
    (hmoves : ∀ m ∈ moves, m.InRange values.length) (hout : out.length = values.length)
    (htargets : (moves.map fun m => m.target.toInt).Nodup) :
    ∃ result, run values moves out = some result ∧ result.length = values.length ∧
      (∀ m ∈ moves, valueAt result m.target = valueAt values m.source) ∧
      ∀ p : Nat, (∀ m ∈ moves, m.target.toInt ≠ p) → result[p]? = out[p]? := by
  induction moves generalizing out with
  | nil => exact ⟨out, rfl, hout, by simp, fun p _ => rfl⟩
  | cons m moves ih =>
    rw [List.forall_mem_cons] at hmoves
    rw [List.map_cons, List.nodup_cons] at htargets
    obtain ⟨v, hv, hmake⟩ := make_of_inRange hmoves.1 hout
    have hset : (out.set m.target.toInt.toNat v).length = values.length := by
      rw [List.length_set, hout]
    obtain ⟨result, hrun, hlen, hmoved, hkept⟩ := ih hmoves.2 hset htargets.2
    obtain ⟨-, -, hnonneg, hlt⟩ := hmoves.1
    refine ⟨result, ?_, hlen, ?_, ?_⟩
    · rw [run, List.foldlM_cons, hmake]
      exact hrun
    · refine List.forall_mem_cons.mpr ⟨?_, hmoved⟩
      -- no later move has this target
      have hfree : ∀ m' ∈ moves, m'.target.toInt ≠ m.target.toInt.toNat := by
        intro m' hm' heq
        refine htargets.1 (List.mem_map.mpr ⟨m', hm', ?_⟩)
        omega
      rw [valueAt_of_nonneg hnonneg, hkept _ hfree, List.getElem?_set_self (by omega), hv]
    · intro p hp
      rw [List.forall_mem_cons] at hp
      rw [hkept p hp.2, List.getElem?_set_ne]
      have := hp.1
      omega

end Move

/-- The move of the value at a place. -/
def channelMove (c h w : Nat) (p : Nat × Nat × Nat × Nat) : Move where
  source := index64 c h w p.1 p.2.1 p.2.2.1 p.2.2.2
  target := index64 h w c p.1 p.2.2.1 p.2.2.2 p.2.1

/-- The moves of the loop over images, channels, rows and columns. -/
def channelMoves (n c h w : Nat) : List Move := (places n c h w).map (channelMove c h w)

section Moves

variable (hbound : n * c * h * w < 2 ^ 63) {p : Nat × Nat × Nat × Nat} (hp : p ∈ places n c h w)
include hbound hp

theorem toInt_source :
    (channelMove c h w p).source.toInt = nchwIndex c h w p.1 p.2.1 p.2.2.1 p.2.2.2 := by
  obtain ⟨hi, hk, hy, hx⟩ := mem_places.mp hp
  have hlt := nchwIndex_lt hi hk hy hx
  show (index64 c h w p.1 p.2.1 p.2.2.1 p.2.2.2).toInt = _
  rw [index64_eq, Int64.toInt_ofNat_of_lt (by omega)]

theorem toInt_target :
    (channelMove c h w p).target.toInt = nhwcIndex c h w p.1 p.2.1 p.2.2.1 p.2.2.2 := by
  obtain ⟨hi, hk, hy, hx⟩ := mem_places.mp hp
  have hlt := nchwIndex_lt hi hy hx hk
  have hsize : n * c * h * w = n * h * w * c := by ring
  show (index64 h w c p.1 p.2.2.1 p.2.2.2 p.2.1).toInt = _
  rw [index64_eq, Int64.toInt_ofNat_of_lt (by omega), nhwcIndex]

theorem inRange_channelMove : (channelMove c h w p).InRange (n * c * h * w) := by
  obtain ⟨hi, hk, hy, hx⟩ := mem_places.mp hp
  have hsource := nchwIndex_lt hi hk hy hx
  have htarget := nchwIndex_lt hi hy hx hk
  have hsize : n * c * h * w = n * h * w * c := by ring
  refine ⟨?_, ?_, ?_, ?_⟩
  · rw [toInt_source hbound hp]
    exact Int.natCast_nonneg _
  · rw [toInt_source hbound hp]
    exact_mod_cast hsource
  · rw [toInt_target hbound hp]
    exact Int.natCast_nonneg _
  · rw [toInt_target hbound hp, hsize]
    exact_mod_cast htarget

end Moves

theorem map_target_channelMoves (hbound : n * c * h * w < 2 ^ 63) :
    ((channelMoves n c h w).map fun m => m.target.toInt).Perm
      ((List.range (n * c * h * w)).map Int.ofNat) := by
  have htargets : ((channelMoves n c h w).map fun m => m.target.toInt) =
      ((places n c h w).map fun p => nhwcIndex c h w p.1 p.2.1 p.2.2.1 p.2.2.2).map Int.ofNat := by
    rw [channelMoves, List.map_map, List.map_map]
    exact List.map_congr_left fun p hp => toInt_target hbound hp
  rw [htargets]
  exact map_nhwcIndex_perm.map _

theorem nodup_targets (hbound : n * c * h * w < 2 ^ 63) :
    ((channelMoves n c h w).map fun m => m.target.toInt).Nodup := by
  rw [(map_target_channelMoves hbound).nodup_iff]
  exact List.nodup_range.map fun _ _ => Int.ofNat.inj

theorem countP_target (hbound : n * c * h * w < 2 ^ 63) {p : Nat} (hp : p < n * c * h * w) :
    (channelMoves n c h w).countP (fun m => m.target.toInt = (p : Int)) = 1 := by
  have hmem : (p : Int) ∈ (channelMoves n c h w).map fun m => m.target.toInt :=
    (map_target_channelMoves hbound).mem_iff.mpr (List.mem_map_of_mem (List.mem_range.mpr hp))
  have hcount := List.count_eq_one_of_mem (nodup_targets hbound) hmem
  rw [List.count, List.countP_map] at hcount
  rw [← hcount]
  refine List.countP_congr fun m _ => ?_
  simp

/-! ## Rotations -/

namespace ChannelsInnermost

/-- The order is determined by the values: every index is that of a place. -/
theorem unique {values stored stored' : List α} (hs : ChannelsInnermost n c h w values stored)
    (hs' : ChannelsInnermost n c h w values stored') (hlen : values.length = n * c * h * w) :
    stored = stored' := by
  have hsize : n * c * h * w = n * h * w * c := by ring
  refine List.ext_getElem? fun p => ?_
  by_cases hp : p < n * h * w * c
  · obtain ⟨i, y, x, k, hi, hy, hx, hk, rfl⟩ := exists_nchwIndex hp
    exact (hs.index i k y x hi hk hy hx).trans (hs'.index i k y x hi hk hy hx).symm
  · rw [List.getElem?_eq_none (by rw [hs.length]; omega),
      List.getElem?_eq_none (by rw [hs'.length]; omega)]

/-- Three turns bring every value back. -/
theorem turn_turn_turn {v₀ v₁ v₂ v₃ : List α} (h₁ : ChannelsInnermost n c h w v₀ v₁)
    (h₂ : ChannelsInnermost n h w c v₁ v₂) (h₃ : ChannelsInnermost n w c h v₂ v₃)
    (hlen : v₀.length = n * c * h * w) : v₃ = v₀ := by
  refine List.ext_getElem? fun p => ?_
  by_cases hp : p < n * c * h * w
  · obtain ⟨i, k, y, x, hi, hk, hy, hx, rfl⟩ := exists_nchwIndex hp
    calc
      v₃[nchwIndex c h w i k y x]? = v₂[nchwIndex w c h i x k y]? := h₃.index i x k y hi hx hk hy
      _ = v₁[nchwIndex h w c i y x k]? := h₂.index i y x k hi hy hx hk
      _ = v₀[nchwIndex c h w i k y x]? := h₁.index i k y x hi hk hy hx
  · rw [List.getElem?_eq_none (by rw [h₃.length, h₂.length, h₁.length]; omega),
      List.getElem?_eq_none (by omega)]

end ChannelsInnermost

variable {zero : α} {values : List α}

theorem exists_channelsLast (zero : α) (hlen : values.length = n * c * h * w) :
    ∃ out, channelsLast zero values n c h w = some out ∧ ChannelsInnermost n c h w values out := by
  have hsome : (channelsLast zero values n c h w).isSome = true := by
    rw [channelsLast, if_neg (by omega), Option.isSome_some]
  obtain ⟨out, hout⟩ := Option.isSome_iff_exists.mp hsome
  exact ⟨out, hout, channelsInnermost_of_channelsLast hlen hout⟩

theorem perm_of_channelsLast {out : List α} (hlen : values.length = n * c * h * w)
    (h : channelsLast zero values n c h w = some out) : out.Perm values := by
  rw [channelsLast, if_neg (by omega)] at h
  simp only [hlen, Nat.sub_self, List.replicate_zero, List.append_nil, Option.some.injEq] at h
  subst h
  have hvalues : values = (List.range (n * c * h * w)).map fun i => values.toArray.getD i zero := by
    refine List.ext_getElem (by simp [hlen]) fun i hi _ => ?_
    simp [Array.getD, hi]
  conv_rhs => rw [hvalues]
  exact channelsLastOrder_perm.map _

theorem channelsInnermost_of_run {out : List α} (hbound : n * c * h * w < 2 ^ 63)
    (hout : out.length = values.length)
    (hmoved : ∀ m ∈ channelMoves n c h w, Move.valueAt out m.target = Move.valueAt values m.source) :
    ChannelsInnermost n c h w values out := by
  refine ⟨hout, ?_⟩
  intro i k y x hi hk hy hx
  have hp : (i, k, y, x) ∈ places n c h w := mem_places.mpr ⟨hi, hk, hy, hx⟩
  have hm := hmoved _ (List.mem_map_of_mem hp)
  obtain ⟨hsource, -, htarget, -⟩ := inRange_channelMove hbound hp
  rw [Move.valueAt_of_nonneg hsource, Move.valueAt_of_nonneg htarget, toInt_source hbound hp,
    toInt_target hbound hp] at hm
  exact hm

/-- **Moving the channel last rotates the axes.** The loop over the places of an `n` by `c` by `h` by
`w` tensor stays in range and writes each index once. What it leaves is what `channelsLast` gives: the
value of every place at the place's index with the channel last, so a permutation of the values. Two
more turns give the values back. -/
theorem channelsLast_rotates (zero : α) (hlen : values.length = n * c * h * w)
    (hbound : n * c * h * w < 2 ^ 63) :
    (∀ m ∈ channelMoves n c h w, m.InRange values.length) ∧
    (∀ p : Nat, p < values.length →
      (channelMoves n c h w).countP (fun m => m.target.toInt = (p : Int)) = 1) ∧
    ∃ out,
      Move.run values (channelMoves n c h w) (List.replicate values.length zero) = some out ∧
      channelsLast zero values n c h w = some out ∧
      (∀ i k y x : Nat, i < n → k < c → y < h → x < w →
        out[((i * h + y) * w + x) * c + k]? = values[((i * c + k) * h + y) * w + x]?) ∧
      out.Perm values ∧
      ((channelsLast zero out n h w c).bind fun next => channelsLast zero next n w c h) =
        some values := by
  have hrange : ∀ m ∈ channelMoves n c h w, m.InRange values.length := by
    intro m hm
    obtain ⟨p, hp, rfl⟩ := List.mem_map.mp hm
    rw [hlen]
    exact inRange_channelMove hbound hp
  obtain ⟨out, hout, hinner⟩ := exists_channelsLast zero hlen
  refine ⟨hrange, fun p hp => countP_target hbound (by omega), out, ?_, hout, hinner.index,
    perm_of_channelsLast hlen hout, ?_⟩
  · obtain ⟨result, hrun, hsize, hmoved, -⟩ :=
      Move.run_of_inRange hrange (List.length_replicate (a := zero)) (nodup_targets hbound)
    rw [hrun, (channelsInnermost_of_run hbound hsize hmoved).unique hinner hlen]
  · have hlen₁ : out.length = n * h * w * c := by
      rw [hinner.length, hlen]
      ring
    obtain ⟨out₂, hout₂, hinner₂⟩ := exists_channelsLast zero hlen₁
    have hlen₂ : out₂.length = n * w * c * h := by
      rw [hinner₂.length, hlen₁]
      ring
    obtain ⟨out₃, hout₃, hinner₃⟩ := exists_channelsLast zero hlen₂
    rw [hout₂, Option.bind_some, hout₃, hinner.turn_turn_turn hinner₂ hinner₃ hlen]

/-- A tensor of two images with two channels, one row and three columns, in which no two of the last
three extents are the same. -/
theorem channelsLast_two_images :
    ([0, 1, 2, 3, 4, 5, 6, 7, 8, 9, 10, 11] : List Nat).length = 2 * 2 * 1 * 3 ∧
      2 * 2 * 1 * 3 < 2 ^ 63 ∧
      channelsLast 0 [0, 1, 2, 3, 4, 5, 6, 7, 8, 9, 10, 11] 2 2 1 3 =
        some [0, 3, 1, 4, 2, 5, 6, 9, 7, 10, 8, 11] ∧
      Move.run [0, 1, 2, 3, 4, 5, 6, 7, 8, 9, 10, 11] (channelMoves 2 2 1 3) (List.replicate 12 0) =
        some [0, 3, 1, 4, 2, 5, 6, 9, 7, 10, 8, 11] ∧
      ((channelsLast 0 [0, 3, 1, 4, 2, 5, 6, 9, 7, 10, 8, 11] 2 1 3 2).bind fun next =>
        channelsLast 0 next 2 3 2 1) = some [0, 1, 2, 3, 4, 5, 6, 7, 8, 9, 10, 11] := by
  have hout : channelsLast 0 [0, 1, 2, 3, 4, 5, 6, 7, 8, 9, 10, 11] 2 2 1 3 =
      some [0, 3, 1, 4, 2, 5, 6, 9, 7, 10, 8, 11] := by
    decide
  have hlen : ([0, 1, 2, 3, 4, 5, 6, 7, 8, 9, 10, 11] : List Nat).length = 2 * 2 * 1 * 3 := by decide
  have hbound : 2 * 2 * 1 * 3 < 2 ^ 63 := by decide
  obtain ⟨-, -, out, hrun, hlast, -, -, hback⟩ := channelsLast_rotates 0 hlen hbound
  rw [hout] at hlast
  obtain rfl := Option.some.inj hlast
  exact ⟨hlen, hbound, hout, hrun, hback⟩

end NetImage
