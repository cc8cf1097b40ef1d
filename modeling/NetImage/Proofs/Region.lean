import NetImage.Proofs.Build.Placement

/-!
# NetImage.Proofs.Region

Runs of calls on the two regions. Only placing changes a region, and it only adds at the end, so all
that was ever placed stays where it was said to be, also if the threshold is changed on the way.

* `Regions.call`, `Regions.run`: one call, and a run of calls.
* `Regions.Adjoining`: placements one right behind the other.
* `Regions.Accounts`: what the answers say about the regions, and `Accounts.call`, which no call breaks.
* `Regions.run_accounts`: every run.
-/

namespace NetImage
namespace Regions

/-- A call on the regions. -/
inductive Call where
  | place (bytes : Bytes)
  | reserve
  | select (size : Int)
  | setThreshold (threshold : Int)

/-- What a call answers. -/
inductive Answer where
  | placement (p : Placement)
  | region (r : Region)
  | done

/-- The answer to a call, and the regions after it. -/
def call (r : Regions) : Call → Answer × Regions
  | .place bytes => (.placement (r.place bytes).2, (r.place bytes).1)
  | .reserve => (.placement r.reserve, r)
  | .select size => (.region (r.select size), r)
  | .setThreshold threshold => (.done, { r with threshold := threshold })

/-- The answers to some calls, and the regions after them. -/
def run (r : Regions) : List Call → List Answer × Regions
  | [] => ([], r)
  | c :: calls =>
    let next := (r.call c).2
    ((r.call c).1 :: (next.run calls).1, (next.run calls).2)

/-- The threshold that a call sets. -/
def Call.threshold? : Call → Option Int
  | .setThreshold threshold => some threshold
  | _ => none

/-- The threshold in force after some calls: the last that was set, or the one at the start. -/
def inForce (threshold : Int) (calls : List Call) : Int :=
  (calls.filterMap Call.threshold?).getLastD threshold

/-- What a call placed, and where. -/
def placement? : Call × Answer → Option (Bytes × Placement)
  | (.place bytes, .placement p) => some (bytes, p)
  | _ => none

/-- What was placed in the region with the given slot, in the order of the calls. -/
def placedIn (slot : Int) (calls : List Call) (answers : List Answer) : List (Bytes × Placement) :=
  ((calls.zip answers).filterMap placement?).filter fun x => x.2.slot == slot

/-- Placements one right behind the other, from `start` to `stop`. -/
def Adjoining : List (Bytes × Placement) → Nat → Nat → Prop
  | [], start, stop => start = stop
  | (bytes, p) :: rest, start, stop => p.offset = start ∧ Adjoining rest (start + bytes.length) stop

theorem Adjoining.concat {placed : List (Bytes × Placement)} {bytes : Bytes} {p : Placement}
    {start stop : Nat} (h : Adjoining placed start stop) (hp : p.offset = stop) :
    Adjoining (placed ++ [(bytes, p)]) start (stop + bytes.length) := by
  induction placed generalizing start with
  | nil =>
    cases h
    exact ⟨hp, rfl⟩
  | cons x placed ih => exact ⟨h.1, ih h.2⟩

/-! ## One call further -/

variable {threshold : Int} {calls : List Call} {answers : List Answer} {r : Regions}

theorem run_concat (r : Regions) (calls : List Call) (c : Call) :
    r.run (calls ++ [c]) =
      ((r.run calls).1 ++ [((r.run calls).2.call c).1], ((r.run calls).2.call c).2) := by
  induction calls generalizing r with
  | nil => rfl
  | cons c' calls ih =>
    simp only [List.cons_append, run, ih]

theorem inForce_concat (threshold : Int) (calls : List Call) (c : Call) :
    inForce threshold (calls ++ [c]) = c.threshold?.getD (inForce threshold calls) := by
  rw [inForce, List.filterMap_append]
  cases h : c.threshold? with
  | none => simp [h, inForce]
  | some t => simp [h]

theorem placedIn_concat (h : answers.length = calls.length) (slot : Int) (c : Call) (a : Answer) :
    placedIn slot (calls ++ [c]) (answers ++ [a]) =
      placedIn slot calls answers ++ (placement? (c, a)).toList.filter fun x => x.2.slot == slot := by
  rw [placedIn, List.zip_append h.symm, List.filterMap_append, List.filter_append]
  cases hp : placement? (c, a) with
  | none => simp [hp, placedIn]
  | some x => simp [hp, placedIn]

/-- What the answers to some calls say about the regions after them. -/
structure Accounts (threshold : Int) (calls : List Call) (answers : List Answer) (r : Regions) :
    Prop where
  regular : r.Regular (inForce threshold calls)
  length : answers.length = calls.length
  /-- What was placed went to the region for its size and is where the answer says. -/
  placed : ∀ (i : Nat) (bytes : Bytes), calls[i]? = some (.place bytes) →
    ∃ p, answers[i]? = some (.placement p) ∧
      p.slot = slotFor (inForce threshold (calls.take i)) bytes.length ∧
      p.offset + bytes.length ≤ (r.contents p.slot).length ∧
      (r.contents p.slot).slice p.offset (p.offset + bytes.length) = bytes
  /-- What was placed in a region fills it from start to end. -/
  tiles : ∀ slot, Adjoining (placedIn slot calls answers) 0 (r.contents slot).length ∧
    r.contents slot = (placedIn slot calls answers).flatMap Prod.fst

theorem accounts_empty : Accounts threshold [] [] (empty threshold) := by
  refine ⟨regular_empty, rfl, by simp, ?_⟩
  intro slot
  have hempty : (empty threshold).contents slot = [] := by
    unfold contents
    split
    · rfl
    · split <;> rfl
  rw [hempty]
  exact ⟨rfl, rfl⟩

/-- What was placed earlier stays in its place when the regions grow at their ends. -/
theorem Accounts.earlier (h : Accounts threshold calls answers r) {c : Call} {a : Answer}
    {r' : Regions} (hgrows : ∀ slot, r.contents slot <+: r'.contents slot) {i : Nat} {bytes : Bytes}
    (hi : i < calls.length) (hcall : (calls ++ [c])[i]? = some (.place bytes)) :
    ∃ p, (answers ++ [a])[i]? = some (.placement p) ∧
      p.slot = slotFor (inForce threshold ((calls ++ [c]).take i)) bytes.length ∧
      p.offset + bytes.length ≤ (r'.contents p.slot).length ∧
      (r'.contents p.slot).slice p.offset (p.offset + bytes.length) = bytes := by
  rw [List.getElem?_append_left hi] at hcall
  obtain ⟨p, hanswer, hslot, hroom, hbytes⟩ := h.placed i bytes hcall
  obtain ⟨more, hmore⟩ := hgrows p.slot
  refine ⟨p, ?_, ?_, ?_, ?_⟩
  · rwa [List.getElem?_append_left (by rwa [h.length])]
  · rwa [List.take_append_of_le_length hi.le]
  · rw [← hmore, List.length_append]
    omega
  · rwa [← hmore, Bytes.slice_append_left hroom]

/-- A call that places nothing. -/
theorem Accounts.idle (h : Accounts threshold calls answers r) {c : Call} {r' : Regions}
    (a : Answer) (hc : ∀ bytes, c ≠ .place bytes) (hcontents : r'.contents = r.contents)
    (hregular : r'.Regular (inForce threshold (calls ++ [c]))) :
    Accounts threshold (calls ++ [c]) (answers ++ [a]) r' := by
  have hnone : placement? (c, a) = none := by
    cases c with
    | place bytes => exact absurd rfl (hc bytes)
    | _ => rfl
  refine ⟨hregular, by simp [h.length], ?_, ?_⟩
  · intro i bytes hi
    rcases Nat.lt_or_ge i calls.length with hlt | hge
    · exact h.earlier (fun slot => by rw [hcontents]) hlt hi
    · rw [List.getElem?_append_right hge, List.getElem?_singleton] at hi
      split at hi
      · exact absurd (Option.some.inj hi) (hc bytes)
      · cases hi
  · intro slot
    rw [placedIn_concat h.length, hnone, hcontents]
    simpa using h.tiles slot

theorem Accounts.place (h : Accounts threshold calls answers r) (bytes : Bytes) :
    Accounts threshold (calls ++ [.place bytes]) (answers ++ [.placement (r.place bytes).2])
      (r.place bytes).1 := by
  have hcontents := place_contents h.regular bytes
  have hplacement := place_placement h.regular bytes
  refine ⟨?_, by simp [h.length], ?_, ?_⟩
  · rw [inForce_concat]
    exact h.regular.place bytes
  · intro i bytes' hi
    rcases Nat.lt_trichotomy i calls.length with hlt | rfl | hgt
    · exact h.earlier (fun slot => ⟨_, (hcontents slot).symm⟩) hlt hi
    · rw [List.getElem?_concat_length, Option.some.injEq, Call.place.injEq] at hi
      subst hi
      refine ⟨_, by rw [← h.length, List.getElem?_concat_length], ?_⟩
      rw [hplacement, hcontents, if_pos rfl, List.take_left]
      refine ⟨rfl, by rw [List.length_append], ?_⟩
      rw [Bytes.slice_append_right le_rfl, Nat.sub_self, Nat.add_sub_cancel_left, Bytes.slice_self]
    · rw [List.getElem?_eq_none (by simp; omega)] at hi
      cases hi
  · intro slot
    obtain ⟨htiles, hjoined⟩ := h.tiles slot
    rw [placedIn_concat h.length, hcontents, hplacement]
    by_cases hslot : slotFor (inForce threshold calls) bytes.length = slot
    · subst hslot
      simp only [placement?, Option.toList_some, beq_self_eq_true, List.filter_cons_of_pos,
        List.filter_nil, if_pos, List.length_append, List.flatMap_append, List.flatMap_singleton]
      exact ⟨htiles.concat rfl, by rw [← hjoined]⟩
    · simpa [placement?, hslot] using ⟨htiles, hjoined⟩

theorem Accounts.call (h : Accounts threshold calls answers r) (c : Call) :
    Accounts threshold (calls ++ [c]) (answers ++ [(r.call c).1]) (r.call c).2 := by
  cases c with
  | place bytes => exact h.place bytes
  | reserve =>
    refine h.idle _ (by simp) rfl ?_
    rw [inForce_concat]
    exact h.regular
  | select size =>
    refine h.idle _ (by simp) rfl ?_
    rw [inForce_concat]
    exact h.regular
  | setThreshold t =>
    refine h.idle _ (by simp) rfl ?_
    rw [inForce_concat]
    exact ⟨rfl, h.regular.first, h.regular.second⟩

theorem run_accounts (threshold : Int) (calls : List Call) :
    Accounts threshold calls ((empty threshold).run calls).1 ((empty threshold).run calls).2 := by
  -- from the end, as the last call is made on the regions that the others leave
  induction calls using List.reverseRecOn with
  | nil => exact accounts_empty
  | append_singleton calls c ih =>
    rw [run_concat]
    exact ih.call c

/-- Every call is answered by the regions that the calls before it leave. -/
theorem getElem?_run {i : Nat} {c : Call} (h : calls[i]? = some c) (r : Regions) :
    (r.run calls).1[i]? = some ((r.run (calls.take i)).2.call c).1 ∧
      (r.run (calls.take (i + 1))).2 = ((r.run (calls.take i)).2.call c).2 := by
  induction calls generalizing r i with
  | nil => cases h
  | cons c' calls ih =>
    cases i with
    | zero =>
      cases h
      exact ⟨rfl, rfl⟩
    | succ i => exact ih h (r.call c').2

theorem slotFor_eq_first_iff {n : Int} : slotFor threshold n = slotParameters ↔ n ≤ threshold := by
  rw [slotFor, ite_eq_left_iff, not_imp_comm]
  simp [slots_ne]

/-- **Runs on the regions.** Whatever is called on two regions that were empty, everything placed is
found at the end where the answer said, and what was placed in a region fills it, one right behind the
other in the order of the calls. It went to the first region if and only if its size was at most the
threshold in force. Reserving answers with the end that the first region had, and neither reserving
nor selecting changes anything. -/
theorem run_keeps_placements (threshold : Int) (calls : List Call) :
    Accounts threshold calls ((empty threshold).run calls).1 ((empty threshold).run calls).2 ∧
    ∀ i,
      (∀ bytes p, calls[i]? = some (.place bytes) →
        ((empty threshold).run calls).1[i]? = some (.placement p) →
        (p.slot = slotParameters ↔ (bytes.length : Int) ≤ inForce threshold (calls.take i))) ∧
      (calls[i]? = some .reserve →
        ((empty threshold).run calls).1[i]? = some (.placement
          ⟨((empty threshold).run (calls.take i)).2.first.data.size, 0xff⟩) ∧
        ((empty threshold).run (calls.take (i + 1))).2 = ((empty threshold).run (calls.take i)).2) ∧
      (∀ size, calls[i]? = some (.select size) →
        ((empty threshold).run (calls.take (i + 1))).2 =
          ((empty threshold).run (calls.take i)).2) := by
  have haccounts := run_accounts threshold calls
  refine ⟨haccounts, fun i => ⟨?_, fun hi => getElem?_run hi _, fun size hi => (getElem?_run hi _).2⟩⟩
  intro bytes p hi hanswer
  obtain ⟨p', hanswer', hslot, -⟩ := haccounts.placed i bytes hi
  rw [hanswer, Option.some.injEq, Answer.placement.injEq] at hanswer'
  rw [hanswer', hslot, slotFor_eq_first_iff]

/-- Three bytes that are too many for the first region, none, and three again under a threshold that
lets them in, behind those of no length. -/
def mixedCalls : List Call :=
  [.place [1, 2, 3], .place [], .setThreshold 3, .reserve, .select 9, .place [4, 5, 6]]

theorem mixedCalls_kept :
    ((empty 2).run mixedCalls).1[3]? = some (.placement ⟨0, 0xff⟩) ∧
    ∃ p, ((empty 2).run mixedCalls).1[5]? = some (.placement p) ∧ p.slot = slotParameters ∧
      (((empty 2).run mixedCalls).2.contents p.slot).slice p.offset (p.offset + 3) = [4, 5, 6] := by
  obtain ⟨haccounts, hcalls⟩ := run_keeps_placements 2 mixedCalls
  obtain ⟨p, hanswer, -, -, hbytes⟩ := haccounts.placed 5 [4, 5, 6] rfl
  refine ⟨((hcalls 3).2.1 rfl).1, p, hanswer, ?_, hbytes⟩
  exact ((hcalls 5).1 [4, 5, 6] p rfl hanswer).mpr (by decide)

end Regions
end NetImage
