import NetImage.Build.Folding
import NetImage.Build.Squeeze
import NetImage.Proofs.Build.Sources

/-!
# NetImage.Proofs.Build.Folding

What folding the squeezes of constants means, said of the declarations alone. A squeeze is folded if
it reads a constant; its output is then another name for the constant, and the last such squeeze
decides. The constant loses the axes of the only squeeze that reads it.

* `withoutAxes`: a shape without some axes, and `eq_withoutAxes_of_squeeze`.
* `Folding.step_cases`: all that one operator can do.
* `Folding.folds_of_ofSources`: what the pass has found at its end.
* `Folds.isFolded_eq`, `Folds.resolve_eq`, `Folds.reshape_eq`: what later passes ask for.
-/

namespace NetImage

/-- A shape without the positions that some axis names. A negative axis counts from the last. -/
def withoutAxes (dims axes : List Int64) : List Int64 :=
  (dims.zipIdx.filter fun x =>
    !axes.any fun a => a.toInt == x.2 || a.toInt + dims.length == x.2).map Prod.fst

theorem withoutAxes_sublist (dims axes : List Int64) : (withoutAxes dims axes).Sublist dims := by
  have hfst := List.zipIdx_map_fst 0 dims
  nth_rewrite 2 [← hfst]
  exact List.filter_sublist.map Prod.fst

theorem Squeeze.position?_eq_some {n i : Nat} {axis : Int64} (hi : i < n) :
    position? n axis = some i ↔ axis.toInt = i ∨ axis.toInt + n = i := by
  unfold position?
  simp only [Option.ite_none_right_eq_some, Option.some.injEq]
  split <;> omega

theorem Squeeze.position?_of_drop {dims : List Int64} {axis : Int64} {i : Nat}
    (h : drop dims axis = .ok i) : position? dims.length axis = some i := by
  unfold drop at h
  split at h
  · cases h
  · rename_i j hj
    simp only at h
    split at h
    · cases h
      exact hj
    · cases h

theorem eq_withoutAxes_of_squeeze {dims axes out : List Int64} (h : squeeze dims axes = .ok out) :
    out = withoutAxes dims axes := by
  unfold squeeze at h
  obtain ⟨dropped, hdropped, h⟩ := bind_eq_ok.mp h
  cases h
  rw [withoutAxes]
  congr 1
  refine List.filter_congr ?_
  rintro ⟨d, i⟩ hmem
  have hi : i < dims.length := (List.mem_zipIdx' hmem).1
  have hdrops := mapM_eq_ok.mp hdropped
  refine congrArg Bool.not ?_
  rw [Bool.eq_iff_iff, List.contains_iff_mem, List.any_eq_true]
  constructor
  · intro hmem
    obtain ⟨axis, haxis, hdrop⟩ := exists_left_of_forall₂ hdrops hmem
    have hnames := (Squeeze.position?_eq_some hi).mp (Squeeze.position?_of_drop hdrop)
    exact ⟨axis, haxis, by simpa using hnames⟩
  · rintro ⟨axis, haxis, hnames⟩
    obtain ⟨j, hj, hdrop⟩ := exists_right_of_forall₂ hdrops haxis
    have hi := (Squeeze.position?_eq_some hi).mpr (by simpa using hnames)
    rw [Squeeze.position?_of_drop hdrop] at hi
    cases hi
    exact hj

namespace Sources

/-- Does this operator squeeze a constant? -/
def folds (g : Sources) (op : OpDecl) : Bool :=
  match op.body with
  | .squeeze source _ _ => source ∈ g.consts.map ConstDecl.tensor
  | _ => false

/-- The operators that become part of the model. -/
def kept (g : Sources) : List OpDecl := g.ops.filter fun op => !g.folds op

/-- The constant that `t` is another name for, if the operator makes it one. -/
def aliasBy (g : Sources) (t : Bytes) (op : OpDecl) : Option Bytes :=
  match op.body with
  | .squeeze source target _ =>
    if target = t ∧ source ∈ g.consts.map ConstDecl.tensor then some source else none
  | _ => none

/-- The tensor that is read under a name. Of the folded squeezes with this output the last counts. -/
def redirect (g : Sources) (t : Bytes) : Bytes :=
  (g.ops.reverse.findSome? (g.aliasBy t)).getD t

theorem folds_iff {g : Sources} {op : OpDecl} : g.folds op = true ↔
    ∃ source target axes, op.body = .squeeze source target axes ∧
      source ∈ g.consts.map ConstDecl.tensor := by
  unfold folds
  split
  · rename_i source target axes hbody
    rw [hbody, decide_eq_true_eq]
    constructor
    · intro h
      exact ⟨source, target, axes, rfl, h⟩
    · rintro ⟨_, _, _, h, hmem⟩
      cases h
      exact hmem
  · rename_i hbody
    simp only [Bool.false_eq_true, false_iff]
    rintro ⟨source, target, axes, h, -⟩
    exact hbody source target axes h

theorem aliasBy_eq_some {g : Sources} {t c : Bytes} {op : OpDecl} : g.aliasBy t op = some c ↔
    ∃ axes, op.body = .squeeze c t axes ∧ c ∈ g.consts.map ConstDecl.tensor := by
  unfold aliasBy
  split
  · rename_i source target axes hbody
    rw [hbody, Option.ite_none_right_eq_some]
    constructor
    · rintro ⟨⟨rfl, hmem⟩, h⟩
      cases h
      exact ⟨axes, rfl, hmem⟩
    · rintro ⟨_, h, hmem⟩
      cases h
      exact ⟨⟨rfl, hmem⟩, rfl⟩
  · rename_i hbody
    constructor
    · intro h
      cases h
    · rintro ⟨axes, h, -⟩
      exact absurd h (hbody c t axes)

/-- A name is read as it is, or stands for a constant that some squeeze of this output reads. -/
theorem redirect_cases (g : Sources) (t : Bytes) : g.redirect t = t ∨
    g.redirect t ∈ g.consts.map ConstDecl.tensor ∧
      ∃ op ∈ g.ops, ∃ axes, op.body = .squeeze (g.redirect t) t axes := by
  unfold redirect
  cases halias : g.ops.reverse.findSome? (g.aliasBy t) with
  | none => exact .inl rfl
  | some c =>
    obtain ⟨op, hop, hc⟩ := List.exists_of_findSome?_eq_some halias
    obtain ⟨axes, hbody, hconst⟩ := aliasBy_eq_some.mp hc
    exact .inr ⟨hconst, op, List.mem_reverse.mp hop, axes, hbody⟩

end Sources

namespace Folding

/-- What the pass has found after some operators. -/
structure Folds (g : Sources) (seen : List OpDecl) (f : Folding) : Prop where
  consts : ∀ t c, f.consts[t]? = some c ↔ c ∈ g.consts ∧ c.tensor = t
  renamed : ∀ t, f.renamed[t]? = seen.reverse.findSome? (g.aliasBy t)
  squeezed : ∀ c ∈ g.consts, ∀ op ∈ seen, ∀ t axes, op.body = .squeeze c.tensor t axes →
    f.squeezed[c.tensor]? = some (op.line, withoutAxes c.dims axes)
  untouched : ∀ c ∈ g.consts, (∀ op ∈ seen, ∀ t axes, op.body ≠ .squeeze c.tensor t axes) →
    f.squeezed[c.tensor]? = none

theorem step_cases {s s' : Folding} {op : OpDecl} (h : (step s op).result = .ok s') :
    (s' = s ∧ ∀ source target axes, op.body = .squeeze source target axes →
      s.consts[source]? = none) ∨
    ∃ source target axes c dims, op.body = .squeeze source target axes ∧
      s.consts[source]? = some c ∧ s.squeezed[c.tensor]? = none ∧
      squeeze c.dims axes = .ok dims ∧
      s' = { s with
        squeezed := s.squeezed.insert c.tensor (op.line, dims)
        renamed := s.renamed.insert target c.tensor } := by
  unfold step at h
  split at h
  · rename_i source target axes hbody
    split at h
    · rename_i hnone
      cases h
      refine .inl ⟨rfl, ?_⟩
      intro source' target' axes' hbody'
      rw [hbody] at hbody'
      cases hbody'
      exact hnone
    · rename_i c hc
      split at h
      · cases h
      · rename_i hfresh
        split at h
        · cases h
        · rename_i dims hdims
          simp only [Traced.result_bind, Traced.result_tell, Traced.result_pure] at h
          cases h
          exact .inr ⟨source, target, axes, c, dims, hbody, hc, hfresh, hdims, rfl⟩
  · rename_i hbody
    cases h
    refine .inl ⟨rfl, ?_⟩
    intro source target axes h
    exact absurd h (hbody source target axes)

theorem folds_start {g : Sources} (h : (g.consts.map ConstDecl.tensor).Nodup) :
    Folds g [] (start g.consts) := by
  refine ⟨fun t c => getElem?_table h, ?_, ?_, ?_⟩
  · simp [start]
  · simp
  · simp [start]

variable {g : Sources} {seen : List OpDecl} {s s' : Folding} {op : OpDecl}

theorem Folds.getElem?_eq_none (hs : Folds g seen s) {t : Bytes} :
    s.consts[t]? = none ↔ t ∉ g.consts.map ConstDecl.tensor := by
  rw [Option.eq_none_iff_forall_ne_some, List.mem_map]
  constructor
  · rintro h ⟨c, hc, ht⟩
    exact h c ((hs.consts t c).mpr ⟨hc, ht⟩)
  · intro h c hc
    exact h ⟨c, (hs.consts t c).mp hc⟩

theorem Folds.eq_of_tensor (hs : Folds g seen s) {c c' : ConstDecl} (hc : c ∈ g.consts)
    (hc' : c' ∈ g.consts) (h : c.tensor = c'.tensor) : c = c' := by
  have hfound := (hs.consts c.tensor c).mpr ⟨hc, rfl⟩
  rw [(hs.consts c.tensor c').mpr ⟨hc', h.symm⟩] at hfound
  exact (Option.some.inj hfound).symm

theorem folds_step (hs : Folds g seen s) (h : (step s op).result = .ok s') :
    Folds g (seen ++ [op]) s' := by
  have hreverse : (seen ++ [op]).reverse = op :: seen.reverse := by simp
  obtain ⟨rfl, hnone⟩ | ⟨source, target, axes, c, dims, hbody, hc, hfresh, hdims, rfl⟩ :=
    step_cases h
  · have hplain : ∀ c ∈ g.consts, ∀ t axes, op.body ≠ .squeeze c.tensor t axes := by
      intro c hc t axes hbody
      exact hs.getElem?_eq_none.mp (hnone _ t axes hbody) (List.mem_map_of_mem hc)
    refine ⟨hs.consts, ?_, ?_, ?_⟩
    · intro t
      have hno : g.aliasBy t op = none := by
        rw [Option.eq_none_iff_forall_ne_some]
        intro c hc
        obtain ⟨axes, hbody, hmem⟩ := Sources.aliasBy_eq_some.mp hc
        exact hs.getElem?_eq_none.mp (hnone c t axes hbody) hmem
      rw [hreverse, List.findSome?_cons, hno, hs.renamed]
    · intro c hc op' hop' t axes hbody
      rcases List.mem_append.mp hop' with hop' | hop'
      · exact hs.squeezed c hc op' hop' t axes hbody
      · rw [List.mem_singleton.mp hop'] at hbody
        exact absurd hbody (hplain c hc t axes)
    · intro c hc hno
      exact hs.untouched c hc fun op' hop' => hno op' (List.mem_append_left _ hop')
  · obtain ⟨hmem, rfl⟩ := (hs.consts source c).mp hc
    refine ⟨hs.consts, ?_, ?_, ?_⟩
    · intro t
      have halias : g.aliasBy t op = if target = t then some c.tensor else none := by
        simp only [Sources.aliasBy, hbody, List.mem_map_of_mem hmem, and_true]
      rw [hreverse, List.findSome?_cons, halias, getElem?_insert_name, ← hs.renamed]
      split <;> rfl
    · intro c' hc' op' hop' t axes' hbody'
      rw [getElem?_insert_name]
      rcases List.mem_append.mp hop' with hop' | hop'
      · have hold := hs.squeezed c' hc' op' hop' t axes' hbody'
        rw [if_neg, hold]
        intro hname
        rw [← hname, hfresh] at hold
        cases hold
      · rw [List.mem_singleton.mp hop', hbody] at hbody'
        obtain ⟨hname, -, rfl⟩ := OpBody.squeeze.inj hbody'
        rw [if_pos hname, List.mem_singleton.mp hop', eq_withoutAxes_of_squeeze hdims,
          hs.eq_of_tensor hmem hc' hname]
    · intro c' hc' hno
      rw [getElem?_insert_name, if_neg]
      · exact hs.untouched c' hc' fun op' hop' => hno op' (List.mem_append_left _ hop')
      · intro hname
        refine hno op (by simp) target axes ?_
        rw [hbody, hname]

theorem folds_of_ofSources {f : Folding} (hnames : (g.consts.map ConstDecl.tensor).Nodup)
    (h : (ofSources g).result = .ok f) : Folds g g.ops f := by
  rw [ofSources, Traced.result_fold] at h
  refine foldlM_invariant (P := Folds g) ?_ (folds_start hnames) h
  intro seen op s s' hs hstep
  exact folds_step hs hstep

theorem Folds.isFolded_eq (hs : Folds g seen s) (op : OpDecl) : s.isFolded op = g.folds op := by
  simp only [isFolded, Sources.folds]
  cases op.body with
  | squeeze source target axes =>
    show s.consts.contains source = decide (source ∈ g.consts.map ConstDecl.tensor)
    rw [Bool.eq_iff_iff, decide_eq_true_eq, Std.TreeMap.contains_eq_isSome_getElem?,
      Option.isSome_iff_ne_none, Ne, hs.getElem?_eq_none, not_not]
  | _ => rfl

theorem Folds.resolve_eq (hs : Folds g g.ops s) (t : Bytes) : s.resolve t = g.redirect t := by
  rw [resolve, Std.TreeMap.getD_eq_getD_getElem?, hs.renamed, Sources.redirect]

theorem Folds.reshape_squeezed (hs : Folds g seen s) {c : ConstDecl} (hc : c ∈ g.consts)
    {t : Bytes} {axes : List Int64} (hop : op ∈ seen) (hbody : op.body = .squeeze c.tensor t axes) :
    s.reshape c = { c with dims := withoutAxes c.dims axes } := by
  rw [reshape, hs.squeezed c hc op hop t axes hbody]

theorem Folds.reshape_untouched (hs : Folds g seen s) {c : ConstDecl} (hc : c ∈ g.consts)
    (h : ∀ op ∈ seen, ∀ t axes, op.body ≠ .squeeze c.tensor t axes) : s.reshape c = c := by
  rw [reshape, hs.untouched c hc h]

/-- Reshaping a constant changes nothing but its dims, of which it leaves some out. -/
theorem Folds.reshape_eq (hs : Folds g seen s) {c : ConstDecl} (hc : c ∈ g.consts) :
    ∃ dims, s.reshape c = { c with dims := dims } ∧ dims.Sublist c.dims := by
  by_cases h : ∀ op ∈ seen, ∀ t axes, op.body ≠ .squeeze c.tensor t axes
  · exact ⟨c.dims, hs.reshape_untouched hc h, List.Sublist.refl _⟩
  · push Not at h
    obtain ⟨op, hop, t, axes, hbody⟩ := h
    exact ⟨_, hs.reshape_squeezed hc hop hbody, withoutAxes_sublist _ _⟩

end Folding
end NetImage
