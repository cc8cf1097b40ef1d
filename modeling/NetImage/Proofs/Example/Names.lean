import NetImage.Proofs.Example.Calls
import Mathlib.Data.List.DropRight
import Mathlib.Data.List.ReduceOption

/-!
# NetImage.Proofs.Example.Names

The names that a sketch gives are all different, as long as no stem ends in a digit.

* `append_decimalNat_inj`: a stem and a number can be told from the name.
* `Sketch.Use`: one use of a sketch, for a name or a line or both.
* `Sketch.Use.names_run`: what one use gives, and `Sketch.givenNames_eq`: any sequence.
* `Sketch.givenNames_fresh`: the names are different, and each stem is numbered from one.
-/

namespace NetImage

/-! ## Stems and numbers -/

/-- Is the last byte a decimal digit? -/
def endsInDigit (s : Bytes) : Bool := s.getLast?.any isDigit

theorem rdropWhile_append_decimalNat {s : Bytes} (h : endsInDigit s = false) (n : Nat) :
    (s ++ decimalNat n).rdropWhile isDigit = s := by
  have hs : s.rdropWhile isDigit = s := by
    rw [List.rdropWhile_eq_self_iff]
    intro hne
    simpa [endsInDigit, List.getLast?_eq_getLast_of_ne_nil hne] using h
  have hdigits : ∀ b ∈ (decimalNat n).reverse, isDigit b = true :=
    fun b hb => isDigit_of_mem_decimalNat n b (List.mem_reverse.mp hb)
  rw [List.rdropWhile, List.reverse_append, List.dropWhile_append_of_pos hdigits]
  exact hs

theorem append_decimalNat_inj {s t : Bytes} (hs : endsInDigit s = false)
    (ht : endsInDigit t = false) {m n : Nat} :
    s ++ decimalNat m = t ++ decimalNat n ↔ s = t ∧ m = n := by
  constructor
  · intro h
    have hstem : s = t := by
      rw [← rdropWhile_append_decimalNat hs m, h, rdropWhile_append_decimalNat ht]
    subst hstem
    exact ⟨rfl, decimalNat_injective (List.append_cancel_left h)⟩
  · rintro ⟨rfl, rfl⟩
    rfl

namespace Sketch

/-- One use of a sketch: a name is asked for, alone or for the line that it is written on, or a line is
written without one. Whatever writes a graph does it by such uses. -/
inductive Use where
  | name (stem : Bytes)
  | line (head : Bytes) (fields : List Bytes)
  | weights (stem : Bytes) (bound : Float) (dims : List Int64)
  | shape (stem : Bytes) (values : List Int64)
  | op (head stem : Bytes) (front back : List Bytes)

namespace Use

/-- The stem of the name that is asked for. -/
def stem? : Use → Option Bytes
  | .name stem => some stem
  | .line .. => none
  | .weights stem .. => some stem
  | .shape stem _ => some stem
  | .op _ stem .. => some stem

/-- Gives back the name, if one is asked for. -/
def run : Use → SketchM (Option Bytes)
  | .name stem => some <$> Sketch.name stem
  | .line head fields => (fun _ => none) <$> Sketch.line head fields
  | .weights stem bound dims => some <$> Sketch.weights stem bound dims
  | .shape stem values => some <$> Sketch.shape stem values
  | .op head stem front back => some <$> Sketch.op head stem front back

end Use

/-- The stems that names are asked for, in order. -/
def askedStems (uses : List Use) : List Bytes := uses.filterMap Use.stem?

/-- The names that a sketch gives, in order. -/
def givenNames (uses : List Use) (s : Sketch) : List Bytes := (uses.mapM Use.run s).1.reduceOption

/-! ## One use -/

section Uses

variable {s : Sketch} {named : List Bytes} (hs : s.Counts named)
include hs

theorem names_const (stem : Bytes) (type : ElementType) (dims data : Bytes) :
    (const stem type dims data s).1 = nameAfter named stem ∧
      (const stem type dims data s).2.Counts (named ++ [stem]) :=
  ⟨fst_name hs stem, counts_name hs stem⟩

/-- Drawing the weights leaves the counters as they are. -/
theorem names_weights (stem : Bytes) (bound : Float) (dims : List Int64) :
    (weights stem bound dims s).1 = nameAfter named stem ∧
      (weights stem bound dims s).2.Counts (named ++ [stem]) := by
  let g := (draw bound (elementCount dims).toInt.toNat [] s.generator).2
  exact names_const (s := { s with generator := g }) hs stem .float _ _

theorem Use.names_run (use : Use) :
    (use.run s).1 = use.stem?.map (nameAfter named) ∧
      (use.run s).2.Counts (named ++ use.stem?.toList) := by
  cases use with
  | name stem => exact ⟨congrArg some (fst_name hs stem), counts_name hs stem⟩
  | line head fields => exact ⟨rfl, by rwa [stem?, Option.toList_none, List.append_nil]⟩
  | weights stem bound dims =>
    obtain ⟨hname, hcounts⟩ := names_weights hs stem bound dims
    exact ⟨congrArg some hname, hcounts⟩
  | shape stem values =>
    obtain ⟨hname, hcounts⟩ := names_const hs stem .int64 (decimalNat values.length)
      (joined "," values)
    exact ⟨congrArg some hname, hcounts⟩
  | op head stem front back => exact ⟨congrArg some (fst_name hs stem), counts_name hs stem⟩

end Uses

/-! ## Sequences -/

theorem givenNames_eq {s : Sketch} {named : List Bytes} (hs : s.Counts named) (uses : List Use) :
    givenNames uses s =
      (askedStems uses).mapIdx fun i stem => nameAfter (named ++ (askedStems uses).take i) stem := by
  induction uses generalizing s named with
  | nil => rfl
  | cons use uses ih =>
    obtain ⟨hname, hcounts⟩ := use.names_run hs
    have hrun : givenNames (use :: uses) s =
        (use.run s).1.toList ++ givenNames uses (use.run s).2 := by
      rw [givenNames, List.mapM_cons]
      show ((use.run s).1 :: (uses.mapM Use.run (use.run s).2).1).reduceOption = _
      cases (use.run s).1 with
      | none => exact List.reduceOption_cons_of_none _
      | some name => exact List.reduceOption_cons_of_some name _
    rw [hrun, ih hcounts, hname]
    cases hstem : use.stem? with
    | none => simp [askedStems, hstem]
    | some stem => simp [askedStems, hstem]

theorem length_givenNames (seed : Int64) (uses : List Use) :
    (givenNames uses (ofSeed seed)).length = (askedStems uses).length := by
  rw [givenNames_eq (counts_ofSeed seed), List.length_mapIdx]

theorem count_take_succ {stems : List Bytes} {i : Nat} {stem : Bytes} (h : stems[i]? = some stem) :
    (stems.take (i + 1)).count stem = (stems.take i).count stem + 1 := by
  rw [List.take_add_one, h, Option.toList_some, List.count_append, List.count_singleton_self]

theorem getElem?_givenNames (seed : Int64) (uses : List Use) {i : Nat} {stem : Bytes}
    (h : (askedStems uses)[i]? = some stem) :
    (givenNames uses (ofSeed seed))[i]? =
      some (stem ++ decimalNat (((askedStems uses).take (i + 1)).count stem)) := by
  rw [givenNames_eq (counts_ofSeed seed), List.getElem?_mapIdx, h, Option.map_some, nameAfter,
    List.nil_append, count_take_succ h]

theorem nodup_givenNames (seed : Int64) {uses : List Use}
    (h : ∀ stem ∈ askedStems uses, endsInDigit stem = false) :
    (givenNames uses (ofSeed seed)).Nodup := by
  rw [List.nodup_iff_getElem?_ne_getElem?]
  intro i j hij hj heq
  rw [length_givenNames] at hj
  obtain ⟨p, hp⟩ : ∃ p, (askedStems uses)[i]? = some p := ⟨_, List.getElem?_eq_getElem (by omega)⟩
  obtain ⟨q, hq⟩ : ∃ q, (askedStems uses)[j]? = some q := ⟨_, List.getElem?_eq_getElem hj⟩
  rw [getElem?_givenNames seed uses hp, getElem?_givenNames seed uses hq, Option.some.injEq,
    append_decimalNat_inj (h p (List.mem_of_getElem? hp)) (h q (List.mem_of_getElem? hq))] at heq
  obtain ⟨rfl, hcount⟩ := heq
  -- the later name of one stem has a greater number
  have hle : ((askedStems uses).take (i + 1)).count p ≤ ((askedStems uses).take j).count p :=
    (List.take_sublist_take_left hij).count_le p
  rw [count_take_succ hq] at hcount
  omega

/-- **Names are fresh.** Whatever a new sketch is used for, all names that it gives are different, and
those of one stem are numbered from one. No stem may end in a digit: the first name of `a1` is the
eleventh of `a`. -/
theorem givenNames_fresh (seed : Int64) {uses : List Use}
    (h : ∀ stem ∈ askedStems uses, endsInDigit stem = false) :
    (givenNames uses (ofSeed seed)).Nodup ∧
      (givenNames uses (ofSeed seed)).length = (askedStems uses).length ∧
      ∀ (i : Nat) (stem : Bytes), (askedStems uses)[i]? = some stem →
        (givenNames uses (ofSeed seed))[i]? =
          some (stem ++ decimalNat (((askedStems uses).take (i + 1)).count stem)) :=
  ⟨nodup_givenNames seed h, length_givenNames seed uses,
    fun _ _ hstem => getElem?_givenNames seed uses hstem⟩

/-- Stems in turn, one of them empty and one the beginning of another. -/
def interleavedUses : List Use :=
  [.name (ascii "conv"), .weights (ascii "w") 0.5 [2, 3], .op (ascii "Conv") (ascii "conv") [] [],
   .line (ascii "Input") [], .name [], .shape (ascii "w") [1, -1], .name (ascii "w1_"), .name []]

theorem givenNames_interleavedUses :
    (∀ stem ∈ askedStems interleavedUses, endsInDigit stem = false) ∧
      (givenNames interleavedUses (ofSeed 7)).Nodup ∧
      (givenNames interleavedUses (ofSeed 7)).length = (askedStems interleavedUses).length ∧
      ∀ (i : Nat) (stem : Bytes), (askedStems interleavedUses)[i]? = some stem →
        (givenNames interleavedUses (ofSeed 7))[i]? =
          some (stem ++ decimalNat (((askedStems interleavedUses).take (i + 1)).count stem)) := by
  have hstems : ∀ stem ∈ askedStems interleavedUses, endsInDigit stem = false := by decide
  exact ⟨hstems, givenNames_fresh 7 hstems⟩

end Sketch
end NetImage
