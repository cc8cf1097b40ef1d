import NetImage.Proofs.Build.Encoding

/-!
# NetImage.Proofs.Build.Placement

Where the parameters are. Two regions grow at their ends only, so what was placed stays where it is,
and the constants of a region follow each other without gaps.

* `Tiles`: parameters one right behind the other.
* `Regions.place_contents`: what placing adds to the regions.
* `Parameters.addConst_eq_ok`, `Parameters.addInput_eq_ok`: all that one parameter can do.
* `Parameters.placed_of_place`: the records and the regions at the end.
-/

namespace NetImage

/-- Parameters one right behind the other, from `start` to `stop`. -/
def Tiles : List Param → Int → Int → Prop
  | [], start, stop => start = stop
  | p :: ps, start, stop => p.offset = start ∧ 0 ≤ p.bytes ∧ Tiles ps (start + p.bytes) stop

theorem Tiles.concat {ps : List Param} {p : Param} {start stop : Int} (h : Tiles ps start stop)
    (hoffset : p.offset = stop) (hbytes : 0 ≤ p.bytes) :
    Tiles (ps ++ [p]) start (stop + p.bytes) := by
  induction ps generalizing start with
  | nil =>
    cases h
    exact ⟨hoffset, hbytes, rfl⟩
  | cons q ps ih => exact ⟨h.1, h.2.1, ih h.2.2⟩

/-! ## Regions -/

/-- The slot of the region for a constant of `n` bytes. -/
def slotFor (threshold n : Int) : Int := if n ≤ threshold then slotParameters else slotParameters2

theorem slotFor_cases (threshold n : Int) :
    slotFor threshold n = slotParameters ∨ slotFor threshold n = slotParameters2 := by
  unfold slotFor
  split
  · exact .inl rfl
  · exact .inr rfl

namespace Regions

/-- The bytes in the region with the given slot. -/
def contents (r : Regions) (slot : Int) : Bytes :=
  if slot = slotParameters then r.first.data.data.toList
  else if slot = slotParameters2 then r.second.data.data.toList
  else []

/-- The regions have their slots. -/
structure Regular (r : Regions) (threshold : Int) : Prop where
  threshold : r.threshold = threshold
  first : r.first.slot = slotParameters
  second : r.second.slot = slotParameters2

variable {r : Regions} {threshold : Int}

theorem regular_empty : (empty threshold).Regular threshold := ⟨rfl, rfl, rfl⟩

theorem Regular.place (h : r.Regular threshold) (bytes : Bytes) :
    (r.place bytes).1.Regular threshold := by
  obtain ⟨_, ⟨_, _⟩, ⟨_, _⟩⟩ := r
  unfold Regions.place
  split
  · exact ⟨h.threshold, h.first, h.second⟩
  · exact ⟨h.threshold, h.first, h.second⟩

theorem slots_ne : slotParameters2 ≠ slotParameters := by decide

theorem place_placement (h : r.Regular threshold) (bytes : Bytes) :
    (r.place bytes).2 = ⟨(r.contents (slotFor threshold bytes.length)).length,
      slotFor threshold bytes.length⟩ := by
  obtain ⟨t, ⟨slot₁, data₁⟩, ⟨slot₂, data₂⟩⟩ := r
  obtain ⟨rfl, rfl, rfl⟩ := h
  by_cases hsize : (bytes.length : Int) ≤ t
  · simp only [Regions.place, goesFirst, select, slotFor, contents, hsize, decide_true, if_true]
    rfl
  · simp only [Regions.place, goesFirst, select, slotFor, contents, hsize, decide_false, if_false,
      Bool.false_eq_true, slots_ne]
    rfl

theorem place_contents (h : r.Regular threshold) (bytes : Bytes) (slot : Int) :
    (r.place bytes).1.contents slot = r.contents slot ++
      if slotFor threshold bytes.length = slot then bytes else [] := by
  obtain ⟨t, ⟨slot₁, data₁⟩, ⟨slot₂, data₂⟩⟩ := r
  obtain ⟨rfl, rfl, rfl⟩ := h
  by_cases hsize : (bytes.length : Int) ≤ t
  · simp only [Regions.place, goesFirst, slotFor, contents, hsize, decide_true, if_true]
    by_cases h₁ : slot = slotParameters
    · simp [h₁]
    · simp [h₁, Ne.symm h₁]
  · simp only [Regions.place, goesFirst, slotFor, contents, hsize, decide_false, if_false,
      Bool.false_eq_true]
    by_cases h₁ : slot = slotParameters
    · simp [h₁, slots_ne]
    · by_cases h₂ : slot = slotParameters2
      · simp [h₂, slots_ne]
      · simp [h₁, h₂, Ne.symm h₂]

end Regions

/-! ## One parameter -/

namespace Parameters

/-- The record of an input. -/
def inputParam (ctx : Context) (id offset : Nat) (i : InputDecl) : Param where
  id := id
  name := i.tensor
  input := true
  dims := [1, i.channels.toInt, i.height.toInt, i.width.toInt]
  type := .fixed16
  bytes := (i.channels * i.height * i.width * 2).toInt
  offset := offset
  slot := slotTestSet
  tileC := i.channels.toInt
  scale := ctx.config.scale.toInt

/-- The record of a constant that is stored as `bytes`. -/
def constParam (ctx : Context) (id offset : Nat) (c : ConstDecl) (type : ParamType)
    (bytes : Bytes) : Param where
  id := id
  name := c.tensor
  input := false
  dims := c.dims.map Int64.toInt
  type := type
  bytes := bytes.length
  offset := offset
  slot := slotFor ctx.config.paramThreshold.toInt bytes.length
  tileC := match c.dims with
    | [_, k, _, _] => k.toInt
    | _ => 0
  scale := ctx.config.scale.toInt

variable {ctx : Context} {s s' : State}

theorem addInput_eq_ok {i : InputDecl} (h : (s.addInput ctx i).result = .ok s') :
    s' = { s with
      done := inputParam ctx s.count s.regions.first.data.size i :: s.done
      count := s.count + 1 } := by
  unfold State.addInput at h
  simp only at h
  split at h
  · rw [Traced.result_bind] at h
    obtain ⟨_, -, h⟩ := bind_eq_ok.mp h
    cases h
    rfl
  · cases h
    rfl

theorem addConst_eq_ok {c : ConstDecl} (h : (s.addConst ctx c).result = .ok s')
    (hr : s.regions.Regular ctx.config.paramThreshold.toInt) :
    c.dims.length ≤ dimsLen ∧ ∃ type bytes overflows,
      (encode ctx c).result = .ok (type, bytes, overflows) ∧
      s' = ⟨(s.regions.place bytes).1,
        constParam ctx s.count
          (s.regions.contents (slotFor ctx.config.paramThreshold.toInt bytes.length)).length c type
          bytes :: s.done,
        s.count + 1, s.overflows + overflows⟩ := by
  unfold State.addConst at h
  simp only [Traced.result_bind, Traced.result_ofExcept] at h
  obtain ⟨_, hcheck, h⟩ := bind_eq_ok.mp h
  obtain ⟨⟨type, bytes, overflows⟩, hencode, h⟩ := bind_eq_ok.mp h
  cases h
  refine ⟨?_, type, bytes, overflows, hencode, ?_⟩
  · unfold checkConst at hcheck
    split at hcheck
    · cases hcheck
    · split at hcheck
      · cases hcheck
      · omega
  · rw [Regions.place_placement hr]
    rfl

/-! ## All parameters -/

/-- A parameter and its record. A constant is stored at the record's offset in its region; an input
only takes the end that the first region had. -/
inductive Recorded (ctx : Context) (r : Regions) : ParamSource → Param → Prop
  | input (id offset : Nat) (i : InputDecl) (hplace : offset ≤ (r.contents slotParameters).length) :
      Recorded ctx r (.fed i) (inputParam ctx id offset i)
  | const (id offset : Nat) {c : ConstDecl} {type : ParamType} {bytes : Bytes} {overflows : Nat}
      (hdims : c.dims.length ≤ dimsLen)
      (hencode : (encode ctx c).result = .ok (type, bytes, overflows))
      (hplace : offset + bytes.length ≤
        (r.contents (slotFor ctx.config.paramThreshold.toInt bytes.length)).length)
      (hbytes : (r.contents (slotFor ctx.config.paramThreshold.toInt bytes.length)).slice offset
        (offset + bytes.length) = bytes) :
      Recorded ctx r (.stored c) (constParam ctx id offset c type bytes)

/-- The constants in the region with the given slot. -/
def inSlot (slot : Int) (ps : List Param) : List Param :=
  ps.filter fun p => !p.input && p.slot == slot

theorem inSlot_concat_input {p : Param} (h : p.input = true) (slot : Int) (ps : List Param) :
    inSlot slot (ps ++ [p]) = inSlot slot ps := by
  simp [inSlot, List.filter_append, h]

theorem inSlot_concat_const {p : Param} (h : p.input = false) (slot : Int) (ps : List Param) :
    inSlot slot (ps ++ [p]) = inSlot slot ps ++ if p.slot = slot then [p] else [] := by
  by_cases hslot : p.slot = slot
  · simp [inSlot, List.filter_append, h, hslot]
  · simp [inSlot, List.filter_append, h, hslot]

/-- Where placing stands after the parameters seen. -/
structure State.Placed (ctx : Context) (seen : List ParamSource) (s : State) : Prop where
  regular : s.regions.Regular ctx.config.paramThreshold.toInt
  count : s.count = seen.length
  records : List.Forall₂ (Recorded ctx s.regions) seen s.done.reverse
  ids : ∀ (i : Nat) (p : Param), s.done.reverse[i]? = some p → p.id = i
  tiles : ∀ slot, Tiles (inSlot slot s.done.reverse) 0 (s.regions.contents slot).length

/-- What was placed stays in its place when more is placed. -/
theorem Recorded.place {r : Regions} {src : ParamSource} {p : Param} (h : Recorded ctx r src p)
    (hr : r.Regular ctx.config.paramThreshold.toInt) (bytes : Bytes) :
    Recorded ctx (r.place bytes).1 src p := by
  cases h with
  | input id offset i hplace =>
    refine .input id offset i ?_
    rw [Regions.place_contents hr, List.length_append]
    omega
  | const id offset hdims hencode hplace hbytes =>
    refine .const id offset hdims hencode ?_ ?_
    · rw [Regions.place_contents hr, List.length_append]
      omega
    · rw [Regions.place_contents hr, Bytes.slice_append_left hplace, hbytes]

theorem getElem?_concat_id {ps : List Param} {p : Param}
    (h : ∀ (i : Nat) (q : Param), ps[i]? = some q → q.id = i) (hp : p.id = ps.length) :
    ∀ (i : Nat) (q : Param), (ps ++ [p])[i]? = some q → q.id = i := by
  intro i q hq
  rcases Nat.lt_trichotomy i ps.length with hi | rfl | hi
  · rw [List.getElem?_append_left hi] at hq
    exact h i q hq
  · simp only [List.getElem?_concat_length, Option.some.injEq] at hq
    rw [← hq, hp]
  · rw [List.getElem?_eq_none (by simp; omega)] at hq
    cases hq

theorem placed_input {seen : List ParamSource} {i : InputDecl} (hs : s.Placed ctx seen)
    (h : (s.addInput ctx i).result = .ok s') : s'.Placed ctx (seen ++ [.fed i]) := by
  have hlen := hs.records.length_eq
  rw [addInput_eq_ok h]
  refine ⟨hs.regular, ?_, ?_, ?_, ?_⟩
  · simp [hs.count]
  · rw [List.reverse_cons]
    exact List.rel_append hs.records (.cons (.input _ _ i le_rfl) .nil)
  · rw [List.reverse_cons]
    refine getElem?_concat_id hs.ids ?_
    simp [inputParam, hs.count, hlen]
  · intro slot
    rw [List.reverse_cons, inSlot_concat_input rfl]
    exact hs.tiles slot

theorem placed_const {seen : List ParamSource} {c : ConstDecl} (hs : s.Placed ctx seen)
    (h : (s.addConst ctx c).result = .ok s') : s'.Placed ctx (seen ++ [.stored c]) := by
  have hlen := hs.records.length_eq
  obtain ⟨hdims, type, bytes, overflows, hencode, rfl⟩ := addConst_eq_ok h hs.regular
  refine ⟨hs.regular.place bytes, ?_, ?_, ?_, ?_⟩
  · simp [hs.count]
  · rw [List.reverse_cons]
    refine List.rel_append (hs.records.imp fun _ _ h => h.place hs.regular bytes)
      (.cons (.const _ _ hdims hencode ?_ ?_) .nil)
    · rw [Regions.place_contents hs.regular, if_pos rfl, List.length_append]
    · rw [Regions.place_contents hs.regular, if_pos rfl, Bytes.slice_append_right le_rfl,
        Nat.sub_self, Nat.add_sub_cancel_left, Bytes.slice_self]
  · rw [List.reverse_cons]
    refine getElem?_concat_id hs.ids ?_
    simp [constParam, hs.count, hlen]
  · intro slot
    rw [List.reverse_cons, inSlot_concat_const rfl, Regions.place_contents hs.regular]
    by_cases hslot : slotFor ctx.config.paramThreshold.toInt bytes.length = slot
    · subst hslot
      rw [if_pos rfl, constParam, if_pos rfl, List.length_append, Nat.cast_add]
      exact (hs.tiles _).concat rfl (Int.natCast_nonneg _)
    · rw [if_neg hslot, constParam, if_neg hslot, List.append_nil, List.append_nil]
      exact hs.tiles slot

theorem placed_add {seen : List ParamSource} {src : ParamSource} (hs : s.Placed ctx seen)
    (h : (s.add ctx src).result = .ok s') : s'.Placed ctx (seen ++ [src]) := by
  cases src with
  | fed i => exact placed_input hs h
  | stored c => exact placed_const hs h

theorem placed_start : State.Placed ctx [] ⟨.empty ctx.config.paramThreshold.toInt, [], 0, 0⟩ := by
  refine ⟨Regions.regular_empty, rfl, .nil, by simp, ?_⟩
  intro slot
  unfold Regions.contents
  split
  · rfl
  · split <;> rfl

theorem placed_of_place {srcs : List ParamSource} {params : Parameters}
    (h : (place ctx srcs).result = .ok params) :
    ∃ s : State, s.Placed ctx srcs ∧ params.records = s.done.reverse ∧
      params.region1 = s.regions.first.data ∧ params.region2 = s.regions.second.data := by
  unfold place at h
  simp only [Traced.result_bind, Traced.result_fold, Traced.result_tell, Traced.result_pure] at h
  obtain ⟨s, hrun, h⟩ := bind_eq_ok.mp h
  cases h
  refine ⟨s, ?_, rfl, rfl, rfl⟩
  refine foldlM_invariant (P := fun seen (s : State) => s.Placed ctx seen) ?_ placed_start hrun
  intro seen src s s' hs hstep
  exact placed_add hs hstep

end Parameters
end NetImage
