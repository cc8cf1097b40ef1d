import NetImage.Proofs.Build.Operands
import NetImage.Proofs.Build.Placement
import NetImage.Proofs.Model.Decoding

/-!
# NetImage.Proofs.Build.Refusal

Which plans of a graph cannot be written. The plan of a graph has its ids, dims, lives and flags in
order, so only its size can be refused: too many ids, a name that is too long, or too many inputs.

* `Plan.WellFormed.overfull_of_encode`: why a plan that is in order is refused.
* `Compile.Planned.wellFormed`: the plan of a graph is in order.
* `refused_iff_overfull`: the plans of all graphs.
-/

namespace NetImage
namespace Plan

/-- Ids are dense, and what a record carries besides its size fits. -/
structure WellFormed (plan : Plan) : Prop where
  paramCount : plan.params.length = plan.nInput
  paramIds : ∀ (i : Nat) (p : Param), plan.params[i]? = some p → p.id = i
  paramDims : ∀ p ∈ plan.params, p.dims.length ≤ dimsLen
  nodeIds : ∀ (i : Nat) (n : Node), plan.nodes[i]? = some n → n.id = plan.nInput + i
  lives : ∀ n ∈ plan.nodes, n.maxOutputId < plan.nInput + plan.nodes.length
  flags : ∀ n ∈ plan.nodes, n.flags.check = .ok ()

/-- A plan that is too large for the section, and the error that says so. -/
inductive Overfull (plan : Plan) : ModelError → Prop where
  | idCount (h : 32767 < plan.nInput + plan.nodes.length) :
      Overfull plan (.idCount (plan.nInput + plan.nodes.length))
  | nameLength {n : Node} (hn : n ∈ plan.nodes) (h : 54 ≤ n.name.length) :
      Overfull plan (.nameLength n.name)
  | indexLength {i : Nat} {n : Node} (hn : plan.nodes[i]? = some n)
      (h : 65535 < 2 * inputTotal (plan.nodes.take i)) : Overfull plan (.indexLength n.name)

theorem checkNode_eq_error {start : Nat} {n : Node} {e : ModelError}
    (h : checkNode start n = .error e) :
    (nodeNameLen ≤ n.name.length ∧ e = .nameLength n.name) ∨
    (u16Max < start ∧ e = .indexLength n.name) ∨
    u16Max < n.maxOutputId ∨ n.flags.check ≠ .ok () := by
  unfold checkNode at h
  split at h
  · rename_i hname
    cases h
    exact .inl ⟨hname, rfl⟩
  split at h
  · rename_i hstart
    cases h
    exact .inr (.inl ⟨hstart, rfl⟩)
  split at h
  · rename_i hlife
    exact .inr (.inr (.inl hlife))
  · refine .inr (.inr (.inr ?_))
    intro hflags
    rw [hflags] at h
    cases h

theorem checkNodes_eq_error {start : Nat} {ns : List Node} {e : ModelError}
    (h : checkNodes start ns = .error e) :
    ∃ (i : Nat) (n : Node), ns[i]? = some n ∧
      checkNode (start + 2 * inputTotal (ns.take i)) n = .error e := by
  induction ns generalizing start with
  | nil => cases h
  | cons n ns ih =>
    rw [checkNodes] at h
    split at h
    · rename_i e' hn
      cases h
      exact ⟨0, n, rfl, by simpa [inputTotal] using hn⟩
    · obtain ⟨i, m, hm, herr⟩ := ih h
      exact ⟨i + 1, m, by simpa using hm, by rw [start_take_cons]; exact herr⟩

namespace WellFormed

variable {plan : Plan} (h : plan.WellFormed)
include h

theorem overfull_of_check {e : ModelError} (hcheck : plan.check = .error e) :
    plan.Overfull e := by
  unfold check at hcheck
  simp only [h.paramCount, ne_eq, not_true_eq_false, if_false] at hcheck
  rcases bind_eq_error.mp hcheck with hparams | ⟨_, -, hcheck⟩
  · obtain ⟨before, ⟨p, i⟩, after, hsplit, -, herr⟩ := forM_eq_error hparams
    have hmem : (p, i) ∈ plan.params.zipIdx := hsplit ▸ List.mem_append_cons_self
    have hp := List.mem_zipIdx_iff_getElem?.mp hmem
    rw [checkParam_eq_ok.mpr ⟨h.paramIds i p hp, h.paramDims p (List.mem_of_getElem? hp)⟩] at herr
    cases herr
  rcases bind_eq_error.mp hcheck with hnodes | ⟨_, -, hcheck⟩
  · obtain ⟨before, ⟨n, i⟩, after, hsplit, -, herr⟩ := forM_eq_error hnodes
    have hmem : (n, i) ∈ plan.nodes.zipIdx := hsplit ▸ List.mem_append_cons_self
    rw [checkNodeId_eq_ok.mpr (h.nodeIds i n (List.mem_zipIdx_iff_getElem?.mp hmem))] at herr
    cases herr
  · split at hcheck
    · rename_i hids
      cases hcheck
      exact .idCount hids
    · cases hcheck

theorem overfull_of_encode {e : ModelError} (hencode : plan.encode = .error e) :
    plan.Overfull e := by
  rcases bind_eq_error.mp hencode with hcheck | ⟨_, hcheck, hencode⟩
  · exact h.overfull_of_check hcheck
  rcases bind_eq_error.mp hencode with hnodes | ⟨_, -, hencode⟩
  · obtain ⟨-, -, -, hids⟩ := check_eq_ok.mp hcheck
    obtain ⟨i, n, hn, hnode⟩ := checkNodes_eq_error hnodes
    rw [Nat.zero_add] at hnode
    have hmem := List.mem_of_getElem? hn
    rcases checkNode_eq_error hnode with ⟨hname, rfl⟩ | ⟨hstart, rfl⟩ | hlife | hflags
    · exact .nameLength hmem hname
    · exact .indexLength hn hstart
    · -- a life is an id, and ids take half the range
      have := h.lives n hmem
      simp only [u16Max] at hids hlife
      omega
    · exact absurd (h.flags n hmem) hflags
  · cases hencode

end WellFormed

theorem Overfull.encode_eq_error {plan : Plan} {e : ModelError} (hover : plan.Overfull e) :
    ∃ e', plan.encode = .error e' := by
  cases hencode : plan.encode with
  | error e' => exact ⟨e', rfl⟩
  | ok bytes =>
    obtain ⟨henc, -⟩ := encode_eq_ok.mp hencode
    cases hover with
    | idCount hids =>
      have := henc.idCount
      simp only [u16Max] at this
      omega
    | nameLength hn hname =>
      have := henc.names _ hn
      simp only [nodeNameLen] at this
      omega
    | indexLength hn hstart =>
      have := henc.starts _ (List.getElem?_eq_some_iff.mp hn).1
      simp only [u16Max] at this
      omega

end Plan

namespace Liveness

theorem lastReader_lt {steps : List NumberedStep} (h : 0 < steps.length) (nInput id : Nat) :
    lastReader nInput steps id < nInput + steps.length := by
  have hle : lastReader nInput steps id ≤ nInput + steps.length - 1 := by
    refine overReaders_le_iff.mpr ?_
    intro j s hs _
    have hj := (List.getElem?_eq_some_iff.mp hs).1
    omega
  omega

theorem lastConcatReader_lt {steps : List NumberedStep} (h : 0 < steps.length) (nInput id : Nat) :
    lastConcatReader nInput steps id < nInput + steps.length := by
  have hle : lastConcatReader nInput steps id ≤ nInput + steps.length - 1 := by
    refine overReaders_le_iff.mpr ?_
    intro j s _ _
    have hlt := lastReader_lt h nInput (nInput + (0 + j))
    split <;> omega
  omega

end Liveness

namespace Compile.Planned

variable {decls : List Decl} {samples : List Sample} {config : Config} {read : FileReader}
  {p : Plan} (st : Planned decls samples config read p)
include st

theorem length_nodes : p.nodes.length = st.numbering.steps.length := by
  rw [st.nodes_eq]
  simp [nodes, length_lastNeeded, st.length_flags]

/-- The flags of a step were checked without what the step behind it adds, which always fits. -/
theorem check_of_mem_flags {f : Flags} (hf : f ∈ st.flags) : f.check = .ok () := by
  have hflags := st.hflags
  rw [stepFlags_eq] at hflags
  obtain ⟨hchecks, hflags⟩ := seq_eq_ok.mp hflags
  rw [← Except.ok.inj hflags] at hf
  obtain ⟨i, hi⟩ := List.mem_iff_getElem?.mp hf
  obtain ⟨step, next, hstep, -, rfl⟩ := List.getElem?_zipWith_eq_some.mp hi
  have hcheck := forM_eq_ok.mp hchecks step (List.mem_of_getElem? hstep)
  unfold Attributes.check at hcheck
  split at hcheck
  · assumption
  · cases hcheck

theorem length_dims_le {r : Param} (hr : r ∈ p.params) : r.dims.length ≤ dimsLen := by
  obtain ⟨s, hs, hrecords, -, -⟩ := Parameters.placed_of_place st.hparams
  rw [st.hplan] at hr
  obtain ⟨src, -, hr⟩ := exists_left_of_forall₂ hs.records (hrecords ▸ hr)
  cases hr with
  | input id offset i hplace => exact Nat.le_refl 4
  | const id offset hdims hencode hplace hbytes => simpa [Parameters.constParam] using hdims

/-- **The plan of a graph is in order.** -/
theorem wellFormed : p.WellFormed := by
  obtain ⟨s, hs, hrecords, -, -⟩ := Parameters.placed_of_place st.hparams
  have hparams : p.params = s.done.reverse := by rw [st.hplan]; exact hrecords
  have hnInput : p.nInput = st.sources.paramNames.length :=
    (congrArg Plan.nInput st.hplan).trans (congrArg Nat.cast st.length_params_eq)
  refine ⟨?_, ?_, fun r hr => st.length_dims_le hr, ?_, ?_, ?_⟩
  · rw [hparams, hnInput, ← st.length_params_eq, hs.records.length_eq]
  · rw [hparams]
    exact hs.ids
  · intro i n hn
    obtain ⟨step, s, -, hat⟩ := st.nodeAt_of_getElem? hn
    rw [hat.id, hnInput, idAt]
    push_cast
    rfl
  · intro n hn
    obtain ⟨i, hi⟩ := List.mem_iff_getElem?.mp hn
    obtain ⟨step, s, -, hat⟩ := st.nodeAt_of_getElem? hi
    have hpos := List.length_pos_of_mem hn
    rw [st.length_nodes] at hpos
    have hreader := Liveness.lastReader_lt hpos st.sources.paramNames.length (st.idAt i)
    have hconcat := Liveness.lastConcatReader_lt hpos st.sources.paramNames.length (st.idAt i)
    rw [hat.maxOutputId, life, hnInput, st.length_nodes]
    omega
  · intro n hn
    obtain ⟨i, hi⟩ := List.mem_iff_getElem?.mp hn
    rw [st.nodes_eq] at hi
    obtain ⟨-, -, flag, -, -, hflag, rfl⟩ := getElem?_nodes.mp hi
    exact st.check_of_mem_flags (List.mem_of_getElem? hflag)

end Compile.Planned

/-- **Refused plans.** The plan of a graph, that of a text among them, is in order. It is refused if and
only if it is too large in one of three ways, and then for a reason that it meets. -/
theorem refused_iff_overfull {decls : List Decl} {samples : List Sample} {config : Config}
    {read : FileReader} {p : Plan} {overflows : Nat}
    (h : (Compile.plan decls samples config read).result = .ok (p, overflows)) :
    p.WellFormed ∧ (∀ e, p.encode = .error e → p.Overfull e) ∧
      ((∃ e, p.encode = .error e) ↔ ∃ e, p.Overfull e) := by
  obtain ⟨st⟩ := Compile.planned_of_plan h
  refine ⟨st.wellFormed, fun e he => st.wellFormed.overfull_of_encode he, ?_, ?_⟩
  · rintro ⟨e, he⟩
    exact ⟨e, st.wellFormed.overfull_of_encode he⟩
  · rintro ⟨e, he⟩
    exact he.encode_eq_error

/-- A convolution whose name fits its record, but not with the suffix of the merge. -/
def longConv : Bytes := ascii
  "Input ToTensor=x Channels=1 Height=1 Width=1
Const ToTensor=w Type=Int64 Dims=1 Data=1
Conv Name=convolution_that_fits_its_record_but_has_no_room FromTensor=x WeightsTensor=w BiasesTensor=- ToTensor=y Strides=1,1 AutoPad=VALID
"

/-- The name of its merge. -/
def longMerge : Bytes := ascii "convolution_that_fits_its_record_but_has_no_room:merge"

theorem longConv_overfull : ∃ decls p overflows, parse longConv = .ok decls ∧
    (Compile.plan decls [] { scale := 8 } fun _ => .error []).result = .ok (p, overflows) ∧
    p.encode = .error (.nameLength longMerge) ∧ p.WellFormed ∧
    p.Overfull (.nameLength longMerge) := by
  have hfails : (planOf longConv { scale := 8 }).map (fun p => p.encode.map fun _ => ()) =
      .ok (.error (.nameLength longMerge)) := by
    decide +kernel
  obtain ⟨p, hp, hfails⟩ := map_eq_ok.mp hfails
  have hencode : p.encode = .error (.nameLength longMerge) := by
    cases h : p.encode with
    | ok bytes => rw [h] at hfails; cases hfails
    | error e => rw [h] at hfails; exact congrArg _ (Except.error.inj hfails)
  obtain ⟨decls, overflows, hparse, hrun⟩ := exists_of_planOf hp
  obtain ⟨hplan, hrefused, -⟩ := refused_iff_overfull hrun
  exact ⟨decls, p, overflows, hparse, hrun, hencode, hplan, hrefused _ hencode⟩

end NetImage
