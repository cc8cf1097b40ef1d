import NetImage.Proofs.Model.Reader
import NetImage.Proofs.Passes

/-!
# NetImage.Proofs.Model.Decoding

Reading a model section gives back the plan it was written for.

* `Plan.encode_eq_ok`: which plans are written, and that the section is then `Plan.modelBytes`.
* `toList_modelBytes`: the section as one list of bytes, table after table.
* `NodeRecord.holds_read`, `ParamRecord.holds_read`: what a single record gives back.
* `describes_of_encode`: every count, record and array entry of the section.
-/

namespace NetImage

/-! ## Tables of records of one size -/

namespace Bytes

theorem length_flatten {w : Nat} {xss : List Bytes} (h : ∀ x ∈ xss, x.length = w) :
    xss.flatten.length = w * xss.length := by
  induction xss with
  | nil => simp
  | cons x xss ih =>
    rw [List.forall_mem_cons] at h
    rw [List.flatten_cons, List.length_append, List.length_cons, h.1, ih h.2]
    ring

theorem drop_flatten {w : Nat} {xss : List Bytes} (h : ∀ x ∈ xss, x.length = w) (i : Nat) :
    xss.flatten.drop (w * i) = (xss.drop i).flatten := by
  induction i generalizing xss with
  | zero => simp
  | succ i ih =>
    cases xss with
    | nil => simp
    | cons x xss =>
      rw [List.forall_mem_cons] at h
      have hw : w * (i + 1) = x.length + w * i := by rw [h.1]; ring
      rw [List.flatten_cons, hw, List.drop_append, List.drop_succ_cons, ← ih h.2]
      simp

theorem slice_flatten {w i : Nat} {xss : List Bytes} {x : Bytes} (h : ∀ x ∈ xss, x.length = w)
    (hx : xss[i]? = some x) : slice (w * i) (w * (i + 1)) xss.flatten = x := by
  obtain ⟨hi, rfl⟩ := List.getElem?_eq_some_iff.mp hx
  have hw : w * (i + 1) - w * i = xss[i].length := by
    rw [h _ (List.getElem_mem hi), Nat.mul_succ]
    omega
  rw [slice, drop_flatten h, List.drop_eq_getElem_cons hi, List.flatten_cons, hw, List.take_left]

end Bytes

/-! ## Records -/

theorem length_paddedDims (dims : List Int) : (paddedDims dims).length = 4 := by
  simp only [paddedDims, dimsLen, List.length_append, List.length_replicate, List.length_drop]
  omega

theorem paddedDims_eq {dims : List Int} (h : dims.length ≤ dimsLen) :
    paddedDims dims = List.replicate (dimsLen - dims.length) 1 ++ dims := by
  rw [paddedDims, Nat.sub_eq_zero_of_le h, List.drop_zero]

namespace Record

theorem length_node {start : Nat} {n : Node} (h : n.name.length < nodeNameLen) :
    (node start n).length = nodeBytes := by
  have hlen : (Wire.padded n.name nodeNameLen).length = 54 := Wire.length_padded h.le
  simp [node, hlen, nodeBytes]

theorem length_dims (dims : List Int) : ((paddedDims dims).flatMap Wire.u16).length = 8 := by
  have hwidth : ∀ x ∈ (paddedDims dims).map Wire.u16, x.length = 2 := by simp
  have h := Bytes.length_flatten hwidth
  rw [List.length_map, length_paddedDims] at h
  rw [List.flatMap_def, h]

@[simp] theorem length_paramEnd (scale : Int) : (paramEnd scale).length = 8 := by
  simp [paramEnd, Wire.zeros]

theorem length_param (p : Param) : (param p).length = paramBytes := by
  simp only [param, List.length_append, length_dims, Wire.length_u32, Wire.length_u8,
    Wire.length_u16, length_paramEnd, paramBytes]

theorem length_placeholder (scale : Int) : (placeholder scale).length = paramBytes := by
  simp [placeholder, Wire.zeros, dimsLen, paramBytes]

end Record

/-- What the record of node `n` gives back when its inputs start at byte `start` of the array. -/
structure NodeRecord.Holds (r : NodeRecord) (n : Node) (start : Nat) : Prop where
  name : 0 ∉ n.name → r.name = n.name
  inputCount : r.inputCount = n.inputs.length % 2 ^ 16
  inputStart : r.inputStart = start
  maxOutputId : (r.maxOutputId : Int) = n.maxOutputId % 2 ^ 16
  op : (r.op : Int) = n.op.index % 2 ^ 16
  flags : r.flags = n.flags.bits.toNat

/-- What the record of parameter `p` gives back. -/
structure ParamRecord.Holds (r : ParamRecord) (p : Param) : Prop where
  offset : (r.offset : Int) = p.offset % 2 ^ 32
  length : (r.length : Int) = p.bytes % 2 ^ 32
  bitWidth : (r.bitWidth : Int) = p.type.bits
  slot : (r.slot : Int) = p.slot % 2 ^ 8
  tileC : (r.tileC : Int) = p.tileC % 2 ^ 16
  dims : r.dims.map Int.ofNat =
    (List.replicate (dimsLen - p.dims.length) 1 ++ p.dims).map (· % 2 ^ 16)
  scale : (r.scale : Int) = p.scale % 2 ^ 16

theorem NodeRecord.read_name {start : Nat} {n : Node} (h : n.name.length < nodeNameLen)
    (h₀ : 0 ∉ n.name) : (read (Record.node start n)).name = n.name := by
  have hlen := Wire.length_padded h.le
  have hpad : (Record.node start n).slice 0 nodeNameLen = Wire.padded n.name nodeNameLen := by
    simp only [Record.node, List.append_assoc]
    rw [Bytes.slice_append_left hlen.ge]
    conv_rhs => rw [← Bytes.slice_self (Wire.padded _ _), hlen]
  rw [read, hpad, Wire.padded, Wire.zeros]
  rw [List.takeWhile_append_of_pos (by simpa using fun b hb => ne_of_mem_of_not_mem hb h₀)]
  cases ((nodeNameLen : Int) - n.name.length).toNat with
  | zero => simp
  | succ k => simp [List.replicate_succ]

theorem NodeRecord.holds_read {start : Nat} {n : Node} (h : n.name.length < nodeNameLen)
    (hs : start ≤ u16Max) : (read (Record.node start n)).Holds n start := by
  have hlen : (Wire.padded n.name nodeNameLen).length = 54 := Wire.length_padded h.le
  refine ⟨read_name h, ?_, ?_, ?_, ?_, ?_⟩
  all_goals
    simp (disch := simp [hlen]) only [read, Record.node, Wire.numberAt_append_left,
      Wire.numberAt_append_right, hlen, List.length_append, Wire.length_u16, Nat.reduceAdd,
      Nat.reduceSub]
  · have := Wire.numberAt_u16 n.inputs.length
    omega
  · have := Wire.numberAt_u16 start
    simp only [u16Max] at hs
    omega
  · exact Wire.numberAt_u16 n.maxOutputId
  · exact Wire.numberAt_u16 n.op.index
  · have := Wire.numberAt_u16 n.flags.bits.toNat
    have := n.flags.bits.toNat_lt
    omega

theorem ParamRecord.read_dims {s t : Bytes} {dims : List Int} (hs : s.length = 12)
    (hd : dims.length = 4) :
    (read (s ++ dims.flatMap Wire.u16 ++ t)).dims.map Int.ofNat = dims.map (· % 2 ^ 16) := by
  obtain ⟨a, b, c, d, rfl⟩ : ∃ a b c d, dims = [a, b, c, d] := by
    match dims, hd with
    | [a, b, c, d], _ => exact ⟨a, b, c, d, rfl⟩
  have hrange : List.range dimsLen = [0, 1, 2, 3] := rfl
  simp (disch := simp [hs]) only [read, hrange, List.map_cons, List.map_nil, List.flatMap_cons,
    List.flatMap_nil, List.append_nil, Wire.numberAt_append_left, Wire.numberAt_append_right, hs,
    Wire.length_u16, Int.ofNat_eq_natCast, Nat.reduceAdd, Nat.reduceMul, Nat.reduceSub,
    Wire.numberAt_u16]

theorem ParamRecord.holds_read {p : Param} (h : p.dims.length ≤ dimsLen) :
    (read (Record.param p)).Holds p := by
  have hd := Record.length_dims p.dims
  refine ⟨?_, ?_, ?_, ?_, ?_, ?_, ?_⟩
  case refine_6 =>
    rw [← paddedDims_eq h]
    exact read_dims (by simp) (length_paddedDims p.dims)
  all_goals
    simp (disch := simp [hd]) only [read, Record.param, Record.paramEnd,
      Wire.numberAt_append_left, Wire.numberAt_append_right, List.length_append, hd,
      Wire.length_u32, Wire.length_u16, Wire.length_u8, Wire.length_zeros, Int.reduceToNat,
      Nat.reduceAdd, Nat.reduceSub]
  · exact Wire.numberAt_u32 p.offset
  · exact Wire.numberAt_u32 p.bytes
  · rw [Wire.numberAt_u8]
    cases p.type <;> rfl
  · exact Wire.numberAt_u8 p.slot
  · exact Wire.numberAt_u16 p.tileC
  · exact Wire.numberAt_u16 p.scale

/-- The record of the output of a node is empty but for the scale. -/
theorem ParamRecord.read_placeholder (scale : Int) :
    read (Record.placeholder scale) =
      ⟨0, 0, 0, 0, 0, [0, 0, 0, 0], (scale % 2 ^ 16).toNat⟩ := by
  have hzero : Record.placeholder scale =
      List.replicate 24 0 ++ (Wire.u16 scale ++ Wire.zeros 2) := rfl
  have hscale : Wire.numberAt (Wire.u16 scale) 0 2 = (scale % 2 ^ 16).toNat := by
    have := Wire.numberAt_u16 scale
    omega
  have hrange : List.range dimsLen = [0, 1, 2, 3] := rfl
  rw [hzero]
  simp (disch := simp) only [read, hrange, List.map_cons, List.map_nil,
    Wire.numberAt_append_left, Wire.numberAt_append_right, Wire.numberAt_replicate_zero,
    List.length_replicate, Nat.reduceSub, hscale]

/-! ## Plans that are written -/

/-- How many inputs some nodes have together. -/
def inputTotal (ns : List Node) : Nat := (ns.map fun n => n.inputs.length).sum

/-- The conditions under which a plan is written. -/
structure Plan.Encodable (plan : Plan) : Prop where
  paramCount : plan.params.length = plan.nInput
  paramIds : ∀ (i : Nat) (p : Param), plan.params[i]? = some p → p.id = i
  paramDims : ∀ p ∈ plan.params, p.dims.length ≤ dimsLen
  nodeIds : ∀ (i : Nat) (n : Node), plan.nodes[i]? = some n → n.id = plan.nInput + i
  idCount : plan.nInput + plan.nodes.length ≤ u16Max / 2
  names : ∀ n ∈ plan.nodes, n.name.length < nodeNameLen
  starts : ∀ i, i < plan.nodes.length → 2 * inputTotal (plan.nodes.take i) ≤ u16Max
  maxOutputIds : ∀ n ∈ plan.nodes, n.maxOutputId ≤ u16Max
  flags : ∀ n ∈ plan.nodes, n.flags.check = .ok ()

namespace Plan

theorem checkParam_eq_ok {p : Param} {i : Nat} :
    checkParam p i = .ok () ↔ p.id = i ∧ p.dims.length ≤ dimsLen := by
  unfold checkParam
  split
  · simp_all
  · split <;> simp_all

theorem checkNodeId_eq_ok {nInput : Int} {n : Node} {i : Nat} :
    checkNodeId nInput n i = .ok () ↔ n.id = nInput + i := by
  unfold checkNodeId
  split <;> simp_all

theorem checkNode_eq_ok {start : Nat} {n : Node} :
    checkNode start n = .ok () ↔ n.name.length < nodeNameLen ∧ start ≤ u16Max ∧
      n.maxOutputId ≤ u16Max ∧ n.flags.check = .ok () := by
  unfold checkNode
  split
  · simp_all
  · split
    · simp_all
    · split
      · simp_all
      · cases n.flags.check with
        | error e => simp
        | ok u => simp_all

theorem zipIdx_forall {α : Type} {P : α → Nat → Prop} {xs : List α} :
    (∀ x ∈ xs.zipIdx, P x.1 x.2) ↔ ∀ (i : Nat) (a : α), xs[i]? = some a → P a i := by
  constructor
  · intro h i a ha
    exact h (a, i) (List.mem_zipIdx_iff_getElem?.mpr ha)
  · rintro h ⟨a, i⟩ hx
    exact h i a (List.mem_zipIdx_iff_getElem?.mp hx)

theorem check_eq_ok {plan : Plan} :
    plan.check = .ok () ↔ plan.params.length = plan.nInput ∧
      (∀ (i : Nat) (p : Param), plan.params[i]? = some p → p.id = i ∧ p.dims.length ≤ dimsLen) ∧
      (∀ (i : Nat) (n : Node), plan.nodes[i]? = some n → n.id = plan.nInput + i) ∧
      plan.nInput + plan.nodes.length ≤ u16Max / 2 := by
  have hforall : ∀ {α : Type} {xs : List α} {f : α → Nat → Except ModelError Unit},
      xs.zipIdx.forM (fun x => f x.1 x.2) = .ok () ↔
        ∀ (i : Nat) (a : α), xs[i]? = some a → f a i = .ok () := by
    intro α xs f
    rw [forM_eq_ok, zipIdx_forall (P := fun a i => f a i = .ok ())]
  unfold check
  by_cases hc : (plan.params.length : Int) = plan.nInput
  · simp only [hc, ne_eq, not_true_eq_false, if_false, true_and]
    rw [seq_eq_ok, seq_eq_ok, guard_eq_ok, hforall, hforall]
    simp only [checkParam_eq_ok, checkNodeId_eq_ok, not_lt]
    exact ⟨fun ⟨hp, hn, hi, _⟩ => ⟨hp, hn, hi⟩, fun ⟨hp, hn, hi⟩ => ⟨hp, hn, hi, rfl⟩⟩
  · simp only [hc, ne_eq, not_false_eq_true, if_true, false_and, iff_false]
    intro h
    cases h

/-- The inputs of all but the first node start behind those of the first. -/
theorem start_take_cons (start : Nat) (n : Node) (ns : List Node) (i : Nat) :
    start + 2 * inputTotal ((n :: ns).take (i + 1)) =
      start + Record.inputBytes n + 2 * inputTotal (ns.take i) := by
  simp only [inputTotal, Record.inputBytes, List.take_succ_cons, List.map_cons, List.sum_cons]
  ring

theorem checkNodes_eq_ok {start : Nat} {ns : List Node} :
    checkNodes start ns = .ok () ↔ ∀ (i : Nat) (n : Node), ns[i]? = some n →
      checkNode (start + 2 * inputTotal (ns.take i)) n = .ok () := by
  induction ns generalizing start with
  | nil => simp [checkNodes]
  | cons n ns ih =>
    have hhead : start + 2 * inputTotal ((n :: ns).take 0) = start := by simp [inputTotal]
    rw [checkNodes]
    cases hn : checkNode start n with
    | error e =>
      simp only [reduceCtorEq, false_iff]
      intro h
      have := h 0 n rfl
      rw [hhead, hn] at this
      cases this
    | ok u =>
      rw [ih]
      constructor
      · intro h i m hm
        cases i with
        | zero =>
          cases hm
          rw [hhead, hn]
        | succ i =>
          rw [start_take_cons]
          exact h i m (by simpa using hm)
      · intro h i m hm
        rw [← start_take_cons]
        exact h (i + 1) m (by simpa using hm)

/-- A plan is written if and only if it meets the conditions, and then as `modelBytes`. -/
theorem encode_eq_ok {plan : Plan} {bytes : ByteArray} :
    plan.encode = .ok bytes ↔ plan.Encodable ∧ plan.modelBytes = bytes := by
  unfold encode
  rw [seq_eq_ok, seq_eq_ok, check_eq_ok, checkNodes_eq_ok]
  simp only [checkNode_eq_ok, Nat.zero_add]
  constructor
  · rintro ⟨⟨hcount, hparams, hids, hid⟩, hnodes, hbytes⟩
    have hmem : ∀ n ∈ plan.nodes, ∃ i, plan.nodes[i]? = some n :=
      fun n hn => List.mem_iff_getElem?.mp hn
    refine ⟨⟨hcount, fun i p hp => (hparams i p hp).1, ?_, hids, hid, ?_, ?_, ?_, ?_⟩, ?_⟩
    · intro p hp
      obtain ⟨i, hi⟩ := List.mem_iff_getElem?.mp hp
      exact (hparams i p hi).2
    · intro n hn
      obtain ⟨i, hi⟩ := hmem n hn
      exact (hnodes i n hi).1
    · intro i hi
      exact (hnodes i plan.nodes[i] (List.getElem?_eq_getElem hi)).2.1
    · intro n hn
      obtain ⟨i, hi⟩ := hmem n hn
      exact (hnodes i n hi).2.2.1
    · intro n hn
      obtain ⟨i, hi⟩ := hmem n hn
      exact (hnodes i n hi).2.2.2
    · cases hbytes
      rfl
  · rintro ⟨h, rfl⟩
    refine ⟨⟨h.paramCount, ?_, h.nodeIds, h.idCount⟩, ?_, rfl⟩
    · intro i p hp
      exact ⟨h.paramIds i p hp, h.paramDims p (List.mem_of_getElem? hp)⟩
    · intro i n hn
      have hmem := List.mem_of_getElem? hn
      have hi := (List.getElem?_eq_some_iff.mp hn).1
      exact ⟨h.names n hmem, h.starts i hi, h.maxOutputIds n hmem, h.flags n hmem⟩

end Plan

/-! ## The section as a list of bytes -/

namespace Record

/-- The records of some nodes, the first node's inputs starting at byte `start` of the array. -/
def table : Nat → List Node → List Bytes
  | _, [] => []
  | start, n :: ns => node start n :: table (start + inputBytes n) ns

theorem toList_nodes (start : Nat) (ns : List Node) (buffer : ByteArray) :
    (nodes start ns buffer).data.toList = buffer.data.toList ++ (table start ns).flatten := by
  induction ns generalizing start buffer with
  | nil => simp [nodes, table]
  | cons n ns ih => simp [nodes, table, ih]

theorem length_table (start : Nat) (ns : List Node) : (table start ns).length = ns.length := by
  induction ns generalizing start with
  | nil => rfl
  | cons n ns ih => simp [table, ih]

theorem getElem?_table (start : Nat) (ns : List Node) (i : Nat) :
    (table start ns)[i]? = ns[i]?.map (node (start + 2 * inputTotal (ns.take i))) := by
  induction ns generalizing start i with
  | nil => simp [table]
  | cons n ns ih =>
    cases i with
    | zero => simp [table, inputTotal]
    | succ i =>
      simp only [table, List.getElem?_cons_succ, ih, List.take_succ_cons, inputTotal, inputBytes,
        List.map_cons, List.sum_cons]
      congr 2
      ring

theorem length_of_mem_table {start : Nat} {ns : List Node}
    (h : ∀ n ∈ ns, n.name.length < nodeNameLen) : ∀ r ∈ table start ns, r.length = nodeBytes := by
  intro r hr
  obtain ⟨i, hi⟩ := List.mem_iff_getElem?.mp hr
  rw [getElem?_table, Option.map_eq_some_iff] at hi
  obtain ⟨n, hn, rfl⟩ := hi
  exact length_node (h n (List.mem_of_getElem? hn))

theorem toList_foldl {α : Type} (f : α → Bytes) (xs : List α) (buffer : ByteArray) :
    (xs.foldl (fun b x => extend b (f x)) buffer).data.toList =
      buffer.data.toList ++ (xs.map f).flatten := by
  induction xs generalizing buffer with
  | nil => simp
  | cons x xs ih => simp [ih]

end Record

theorem toList_modelBytes (plan : Plan) :
    plan.modelBytes.data.toList = Record.header plan ++ (Record.table 0 plan.nodes).flatten
      ++ (plan.params.map Record.param).flatten
      ++ (plan.nodes.map fun _ => Record.placeholder plan.config.scale.toInt).flatten
      ++ (plan.nodes.map Record.inputs).flatten := by
  simp only [Plan.modelBytes, Record.toList_foldl, Record.toList_nodes, toList_extend]
  simp

namespace Record

/-- The words of the header in front of those of the slots. -/
def headerFront (plan : Plan) : Bytes :=
  Wire.u16 plan.nodes.length ++ Wire.u16 plan.nInput ++ Wire.u16 0 ++ Wire.u16 0 ++ Wire.u16 0

theorem header_eq (plan : Plan) :
    header plan = headerFront plan
      ++ (List.replicate plan.config.numSlots.toInt.toNat (Wire.u16 0)).flatten
      ++ (List.replicate plan.config.numSlots.toInt.toNat (Wire.i16 (-1))).flatten
      ++ (Wire.u16 0 ++ Wire.u16 0) := by
  simp [header, headerFront]

theorem length_headerFront (plan : Plan) : (headerFront plan).length = 10 := by
  simp [headerFront]

theorem length_slotWords (k : Nat) {w : Bytes} (h : w.length = 2) :
    (List.replicate k w).flatten.length = 2 * k := by
  rw [Bytes.length_flatten (w := 2) (by simp [h]), List.length_replicate]

theorem length_header (plan : Plan) :
    (header plan).length = (5 + 2 * plan.config.numSlots.toInt.toNat + 2) * 2 := by
  rw [header_eq]
  simp only [List.length_append, length_headerFront, length_slotWords, Wire.length_u16,
    Wire.length_i16]
  ring

/-- All entries of the array of input ids, in order. -/
theorem inputs_flatten (ns : List Node) :
    (ns.map inputs).flatten =
      ((ns.flatMap fun n => n.inputs).map fun id => Wire.i16 (id * 2)).flatten := by
  induction ns with
  | nil => rfl
  | cons n ns ih =>
    simp [inputs, List.flatMap_def, ih]

theorem length_of_mem_entries {ids : List Int} :
    ∀ w ∈ ids.map fun id => Wire.i16 (id * 2), w.length = 2 := by
  intro w hw
  obtain ⟨id, -, rfl⟩ := List.mem_map.mp hw
  exact Wire.length_i16 _

theorem getElem?_inputs {ns : List Node} {i j : Nat} {n : Node} (hn : ns[i]? = some n)
    (hj : j < n.inputs.length) :
    (ns.flatMap fun n => n.inputs)[inputTotal (ns.take i) + j]? = n.inputs[j]? := by
  induction ns generalizing i with
  | nil => simp at hn
  | cons m ns ih =>
    cases i with
    | zero =>
      cases hn
      simp [inputTotal, List.getElem?_append_left hj]
    | succ i =>
      have hpos : inputTotal ((m :: ns).take (i + 1)) + j =
          m.inputs.length + (inputTotal (ns.take i) + j) := by
        simp only [inputTotal, List.take_succ_cons, List.map_cons, List.sum_cons]
        omega
      rw [List.flatMap_cons, hpos, List.getElem?_append_right (Nat.le_add_right _ _),
        Nat.add_sub_cancel_left]
      exact ih hn

end Record

theorem ModelSection.record_eq {m : ModelSection} (pre : Bytes) (xss : List Bytes)
    {start w i : Nat} {x : Bytes} (hb : pre ++ xss.flatten <+: m.bytes)
    (hs : pre.length = start) (hw : ∀ x ∈ xss, x.length = w) (hx : xss[i]? = some x) :
    m.record start w i = x := by
  obtain ⟨post, hb⟩ := hb
  have hi := (List.getElem?_eq_some_iff.mp hx).1
  have hstop : w * (i + 1) ≤ xss.flatten.length := by
    rw [Bytes.length_flatten hw]
    exact Nat.mul_le_mul_left w hi
  rw [record, ← hb, ← hs, Bytes.slice_append_middle hstop, Bytes.slice_flatten hw hx]

/-! ## The whole section -/

/-- What reading a model section of a plan gives back. -/
structure ModelSection.Describes (m : ModelSection) (plan : Plan) : Prop where
  size : (m.bytes.length : Int) = m.nodesStart + nodeBytes * plan.nodes.length
    + paramBytes * (plan.nInput + plan.nodes.length) + 2 * inputTotal plan.nodes
  nodeCount : m.nodeCount = plan.nodes.length
  nInput : (m.nInput : Int) = plan.nInput
  slotStates : ∀ i, i < m.numSlots → m.slotState i = 0
  slotOwners : ∀ i, i < m.numSlots → m.slotOwner i = 0xffff
  nodes : ∀ (i : Nat) (n : Node), plan.nodes[i]? = some n →
    (m.node i).Holds n (2 * inputTotal (plan.nodes.take i))
  inputs : ∀ (i j : Nat) (n : Node) (id : Int), plan.nodes[i]? = some n → n.inputs[j]? = some id →
    (m.entry (m.node i).inputStart j : Int) = 2 * id % 2 ^ 16
  params : ∀ (i : Nat) (p : Param), plan.params[i]? = some p → (m.param i).Holds p
  outputs : ∀ i, i < plan.nodes.length →
    m.output i = ⟨0, 0, 0, 0, 0, [0, 0, 0, 0], (plan.config.scale.toInt % 2 ^ 16).toNat⟩

namespace ModelSection

variable {plan : Plan}

theorem numberAt_record (m : ModelSection) (start w i : Nat) :
    Wire.numberAt m.bytes (start + w * i) w = Wire.numberAt (m.record start w i) 0 w := by
  rw [record, Wire.numberAt_slice (by rw [Nat.mul_succ]; omega), Nat.add_zero]

theorem bytes_ofPlan (plan : Plan) :
    (ofPlan plan plan.modelBytes).bytes = Record.header plan ++ (Record.table 0 plan.nodes).flatten
      ++ (plan.params.map Record.param).flatten
      ++ (plan.nodes.map fun _ => Record.placeholder plan.config.scale.toInt).flatten
      ++ (plan.nodes.map Record.inputs).flatten :=
  toList_modelBytes plan

theorem nodesStart_ofPlan (plan : Plan) :
    (Record.header plan).length = (ofPlan plan plan.modelBytes).nodesStart :=
  Record.length_header plan

theorem front_ofPlan (plan : Plan) :
    Record.headerFront plan <+: (ofPlan plan plan.modelBytes).bytes := by
  simp only [bytes_ofPlan, Record.header_eq, List.append_assoc, List.prefix_append]

theorem nodeCount_ofPlan (h : plan.Encodable) :
    (ofPlan plan plan.modelBytes).nodeCount = plan.nodes.length := by
  obtain ⟨rest, hb⟩ := front_ofPlan plan
  have hread := Wire.numberAt_u16 plan.nodes.length
  have hfit := h.idCount
  have hparams := h.paramCount
  simp only [u16Max] at hfit
  rw [nodeCount, ← hb, Record.headerFront]
  simp (disch := simp) only [Wire.numberAt_append_left]
  omega

theorem nInput_ofPlan (h : plan.Encodable) :
    (ofPlan plan plan.modelBytes).nInput = plan.params.length := by
  obtain ⟨rest, hb⟩ := front_ofPlan plan
  have hread := Wire.numberAt_u16 plan.nInput
  have hfit := h.idCount
  have hparams := h.paramCount
  simp only [u16Max] at hfit
  rw [nInput, ← hb, Record.headerFront]
  simp (disch := simp) only [Wire.numberAt_append_left, Wire.numberAt_append_right,
    Wire.length_u16, Nat.sub_self]
  omega

theorem slotState_ofPlan {i : Nat} (hi : i < (ofPlan plan plan.modelBytes).numSlots) :
    (ofPlan plan plan.modelBytes).slotState i = 0 := by
  have hrec : (ofPlan plan plan.modelBytes).record 10 2 i = Wire.u16 0 := by
    refine record_eq _ (List.replicate plan.config.numSlots.toInt.toNat (Wire.u16 0)) ?_
      (Record.length_headerFront plan) (by simp) ?_
    · simp only [bytes_ofPlan, Record.header_eq, List.append_assoc, List.prefix_append_right_inj,
        List.prefix_append]
    · exact (List.getElem?_replicate).trans (if_pos hi)
  rw [slotState, numberAt_record, hrec]
  rfl

theorem slotOwner_ofPlan {i : Nat} (hi : i < (ofPlan plan plan.modelBytes).numSlots) :
    (ofPlan plan plan.modelBytes).slotOwner i = 0xffff := by
  have hrec : (ofPlan plan plan.modelBytes).record
      (10 + 2 * (ofPlan plan plan.modelBytes).numSlots) 2 i = Wire.i16 (-1) := by
    refine record_eq
      (Record.headerFront plan
        ++ (List.replicate plan.config.numSlots.toInt.toNat (Wire.u16 0)).flatten)
      (List.replicate plan.config.numSlots.toInt.toNat (Wire.i16 (-1))) ?_ ?_
      (by simp) ?_
    · simp only [bytes_ofPlan, Record.header_eq, List.append_assoc, List.prefix_append_right_inj,
        List.prefix_append]
    · rw [List.length_append, Record.length_headerFront, Record.length_slotWords _ (by simp)]
      rfl
    · exact (List.getElem?_replicate).trans (if_pos hi)
  rw [slotOwner, numberAt_record, hrec]
  rfl

theorem record_node (h : plan.Encodable) {i : Nat} {n : Node} (hn : plan.nodes[i]? = some n) :
    (ofPlan plan plan.modelBytes).record (ofPlan plan plan.modelBytes).nodesStart nodeBytes i =
      Record.node (2 * inputTotal (plan.nodes.take i)) n := by
  refine record_eq _ (Record.table 0 plan.nodes) ?_ (nodesStart_ofPlan plan)
    (Record.length_of_mem_table h.names) ?_
  · simp only [bytes_ofPlan, List.append_assoc, List.prefix_append_right_inj, List.prefix_append]
  · rw [Record.getElem?_table, hn, Nat.zero_add]
    rfl

theorem paramsStart_ofPlan (h : plan.Encodable) :
    (Record.header plan ++ (Record.table 0 plan.nodes).flatten).length =
      (ofPlan plan plan.modelBytes).paramsStart := by
  rw [List.length_append, Bytes.length_flatten (Record.length_of_mem_table h.names),
    Record.length_table, paramsStart, nodeCount_ofPlan h, nodesStart_ofPlan]

theorem record_param (h : plan.Encodable) {i : Nat} {p : Param} (hp : plan.params[i]? = some p) :
    (ofPlan plan plan.modelBytes).record (ofPlan plan plan.modelBytes).paramsStart paramBytes i =
      Record.param p := by
  refine record_eq _ (plan.params.map Record.param) ?_ (paramsStart_ofPlan h)
    (by simp [Record.length_param]) (by simp [hp])
  simp only [bytes_ofPlan, List.append_assoc, List.prefix_append_right_inj, List.prefix_append]

theorem outputsStart_ofPlan (h : plan.Encodable) :
    (Record.header plan ++ (Record.table 0 plan.nodes).flatten
      ++ (plan.params.map Record.param).flatten).length =
      (ofPlan plan plan.modelBytes).outputsStart := by
  rw [List.length_append, paramsStart_ofPlan h,
    Bytes.length_flatten (w := paramBytes) (by simp [Record.length_param]), List.length_map,
    outputsStart, nInput_ofPlan h]

theorem record_output (h : plan.Encodable) {i : Nat} (hi : i < plan.nodes.length) :
    (ofPlan plan plan.modelBytes).record (ofPlan plan plan.modelBytes).outputsStart paramBytes i =
      Record.placeholder plan.config.scale.toInt := by
  refine record_eq _
    (plan.nodes.map fun _ => Record.placeholder plan.config.scale.toInt) ?_
    (outputsStart_ofPlan h) (by simp [Record.length_placeholder]) (by simp [hi])
  simp only [bytes_ofPlan, List.append_assoc, List.prefix_append_right_inj, List.prefix_append]

theorem indexStart_ofPlan (h : plan.Encodable) :
    (Record.header plan ++ (Record.table 0 plan.nodes).flatten
      ++ (plan.params.map Record.param).flatten
      ++ (plan.nodes.map fun _ => Record.placeholder plan.config.scale.toInt).flatten).length =
      (ofPlan plan plan.modelBytes).indexStart := by
  rw [List.length_append, outputsStart_ofPlan h,
    Bytes.length_flatten (w := paramBytes) (by simp [Record.length_placeholder]), List.length_map,
    indexStart, nodeCount_ofPlan h]

/-- The array holds the inputs of all nodes, two bytes each. -/
theorem length_index (ns : List Node) :
    (ns.map Record.inputs).flatten.length = 2 * inputTotal ns := by
  rw [Record.inputs_flatten, Bytes.length_flatten Record.length_of_mem_entries, List.length_map,
    List.length_flatMap, inputTotal]

theorem entry_ofPlan (h : plan.Encodable) {i j : Nat} {n : Node} {id : Int}
    (hn : plan.nodes[i]? = some n) (hid : n.inputs[j]? = some id) :
    ((ofPlan plan plan.modelBytes).entry (2 * inputTotal (plan.nodes.take i)) j : Int) =
      2 * id % 2 ^ 16 := by
  have hj := (List.getElem?_eq_some_iff.mp hid).1
  have hrec : (ofPlan plan plan.modelBytes).record (ofPlan plan plan.modelBytes).indexStart 2
      (inputTotal (plan.nodes.take i) + j) = Wire.i16 (id * 2) := by
    refine record_eq _
      ((plan.nodes.flatMap fun n => n.inputs).map fun id => Wire.i16 (id * 2)) ?_
      (indexStart_ofPlan h) Record.length_of_mem_entries ?_
    · rw [bytes_ofPlan, ← Record.inputs_flatten]
    · rw [List.getElem?_map, Record.getElem?_inputs hn hj, hid]
      rfl
  rw [entry, Nat.add_assoc, ← Nat.mul_add, numberAt_record, hrec, Wire.numberAt_i16, Int.mul_comm]

theorem length_ofPlan (h : plan.Encodable) :
    ((ofPlan plan plan.modelBytes).bytes.length : Int) = (ofPlan plan plan.modelBytes).nodesStart
      + nodeBytes * plan.nodes.length + paramBytes * (plan.nInput + plan.nodes.length)
      + 2 * inputTotal plan.nodes := by
  rw [bytes_ofPlan, List.length_append, indexStart_ofPlan h, length_index, indexStart, outputsStart,
    paramsStart, nodeCount_ofPlan h, nInput_ofPlan h, ← h.paramCount]
  push_cast
  ring

/-- A section that is written gives back its plan. -/
theorem describes_ofPlan (h : plan.Encodable) :
    (ofPlan plan plan.modelBytes).Describes plan := by
  have hnode : ∀ (i : Nat) (n : Node), plan.nodes[i]? = some n →
      ((ofPlan plan plan.modelBytes).node i).Holds n (2 * inputTotal (plan.nodes.take i)) := by
    intro i n hn
    rw [node, record_node h hn]
    exact NodeRecord.holds_read (h.names n (List.mem_of_getElem? hn))
      (h.starts i (List.getElem?_eq_some_iff.mp hn).1)
  refine ⟨length_ofPlan h, nodeCount_ofPlan h, ?_, fun i => slotState_ofPlan,
    fun i => slotOwner_ofPlan, hnode, ?_, ?_, ?_⟩
  · rw [nInput_ofPlan h, h.paramCount]
  · intro i j n id hn hid
    rw [(hnode i n hn).inputStart]
    exact entry_ofPlan h hn hid
  · intro i p hp
    rw [param, record_param h hp]
    exact ParamRecord.holds_read (h.paramDims p (List.mem_of_getElem? hp))
  · intro i hi
    rw [output, record_output h hi]
    exact ParamRecord.read_placeholder _

end ModelSection

/-- The size of the header as a number of 64 bits. -/
theorem headerBytes_eq {numSlots : Int64} (h : 0 ≤ numSlots) :
    headerBytes numSlots = Int64.ofNat ((5 + 2 * numSlots.toInt.toNat + 2) * 2) := by
  have hslots : Int64.ofNat numSlots.toInt.toNat = numSlots := by
    rw [Int64.toNat_toInt]
    exact Int64.ofNat_toNatClampNeg numSlots h
  rw [Int64.ofNat_mul, Int64.ofNat_add, Int64.ofNat_add, Int64.ofNat_mul, hslots]
  rfl

/-- **Reading undoes writing.** A section that is written has the size that its counts say, and every
count, record and array entry of the plan is read back from it: numbers modulo two to the width of
their field, and the counts, the array offsets, the flags and names without zero bytes as they are.
The node table starts where `headerBytes` says, as long as that number does not wrap. -/
theorem describes_of_encode {plan : Plan} {bytes : ByteArray} (hslots : 0 ≤ plan.config.numSlots)
    (h : plan.encode = .ok bytes) :
    (ModelSection.ofPlan plan bytes).Describes plan ∧
      headerBytes plan.config.numSlots = Int64.ofNat (ModelSection.ofPlan plan bytes).nodesStart ∧
      (bytes.size < 2 ^ 63 →
        (headerBytes plan.config.numSlots).toInt = (ModelSection.ofPlan plan bytes).nodesStart) := by
  obtain ⟨hplan, rfl⟩ := Plan.encode_eq_ok.mp h
  have hdesc := ModelSection.describes_ofPlan hplan
  have hhead : headerBytes plan.config.numSlots =
      Int64.ofNat (ModelSection.ofPlan plan plan.modelBytes).nodesStart := headerBytes_eq hslots
  refine ⟨hdesc, hhead, ?_⟩
  intro hsize
  have hle : (ModelSection.ofPlan plan plan.modelBytes).nodesStart ≤ plan.modelBytes.size := by
    have hbytes : (ModelSection.ofPlan plan plan.modelBytes).bytes.length = plan.modelBytes.size :=
      Array.length_toList
    rw [← ModelSection.nodesStart_ofPlan, ← hbytes, ModelSection.bytes_ofPlan]
    simp only [List.length_append]
    omega
  rw [hhead, Int64.toInt_ofNat_of_lt (by omega)]

/-- A plan with an input, a constant with one dim and two nodes. -/
def twoNodePlan : Plan where
  config := { scale := 8, numSlots := 2 }
  nInput := 2
  nodes :=
    [{ id := 2, name := ascii "relu", inputs := [0], op := .relu, maxOutputId := 3 },
     { id := 3, name := ascii "add", inputs := [2, 1], op := .add,
       flags := { stride := 1, autoPadValid := true } }]
  params :=
    [{ id := 0, name := ascii "image", input := true, dims := [1, 1, 2, 2], type := .fixed16,
       bytes := 8, offset := 6, slot := slotTestSet, tileC := 1, scale := 8 },
     { id := 1, name := ascii "bias", input := false, dims := [3], type := .fixed16, bytes := 6,
       offset := 0, slot := slotParameters, tileC := 0, scale := 8 }]
  region1 := .empty
  region2 := .empty
  samples := .empty
  labels := []

theorem twoNodePlan_describes :
    0 ≤ twoNodePlan.config.numSlots ∧ twoNodePlan.encode = .ok twoNodePlan.modelBytes ∧
      (ModelSection.ofPlan twoNodePlan twoNodePlan.modelBytes).Describes twoNodePlan ∧
      (headerBytes twoNodePlan.config.numSlots).toInt = 22 := by
  have hslots : 0 ≤ twoNodePlan.config.numSlots := by decide
  have hencode : twoNodePlan.encode = .ok twoNodePlan.modelBytes := rfl
  have hsize : twoNodePlan.modelBytes.size < 2 ^ 63 := by decide +kernel
  obtain ⟨hdesc, -, hhead⟩ := describes_of_encode hslots hencode
  exact ⟨hslots, hencode, hdesc, hhead hsize⟩

end NetImage
