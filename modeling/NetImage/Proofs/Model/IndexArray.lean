import NetImage.Proofs.Model.Decoding

/-!
# NetImage.Proofs.Model.IndexArray

The array of input ids as the runtime reads it: signed words of two bytes, each the double of an id. A
plan is written if it has at most 32767 ids, but the double of an id from 16384 on does not fit such
a word, and is read as a negative number.

* `ModelSection.index_ofPlan`: the array of a plan that is written.
* `index_of_encode`: its entries are the doubles of the ids if and only if all ids are below 16384.
-/

namespace NetImage

/-- The ids that the nodes read, node after node. -/
def Plan.inputIds (plan : Plan) : List Int := plan.nodes.flatMap fun n => n.inputs

/-- The array of input ids, which ends the section, as signed numbers of sixteen bits. -/
def ModelSection.index (m : ModelSection) : List Int :=
  (Wire.wordsOf 2 (m.bytes.drop m.indexStart)).map fun w => (Int16.ofNat w).toInt

/-- What the entry of an id below two to the 15 is read as. -/
def entryOf (id : Int) : Int := if id < 2 ^ 14 then 2 * id else 2 * id - 2 ^ 16

/-! ## Entries -/

theorem toInt_i16 (v : Int) : (Int16.ofNat (Wire.toNat (Wire.i16 v))).toInt = v.bmod Int16.size := by
  rw [Int16.toInt_ofNat']
  exact Wire.bmod_toNat_i16 v

theorem bmod_eq_entryOf {id : Int} (h₀ : 0 ≤ id) (h : id < 2 ^ 15) :
    (id * 2).bmod Int16.size = entryOf id := by
  rw [Int.bmod_def, entryOf, Int16.size]
  split <;> split <;> omega

theorem entryOf_even (id : Int) : entryOf id % 2 = 0 := by
  unfold entryOf
  split <;> omega

theorem entryOf_eq_iff (id : Int) : entryOf id = 2 * id ↔ id < 2 ^ 14 := by
  unfold entryOf
  split <;> omega

theorem entryOf_nonneg_iff {id : Int} (h₀ : 0 ≤ id) (h : id < 2 ^ 15) :
    0 ≤ entryOf id ↔ id < 2 ^ 14 := by
  unfold entryOf
  split <;> omega

/-! ## The array of a plan -/

namespace ModelSection

variable {plan : Plan}

theorem drop_indexStart (h : plan.Encodable) :
    (ofPlan plan plan.modelBytes).bytes.drop (ofPlan plan plan.modelBytes).indexStart =
      (plan.nodes.map Record.inputs).flatten := by
  rw [bytes_ofPlan, ← indexStart_ofPlan h, List.drop_left]

theorem index_ofPlan (h : plan.Encodable)
    (hids : ∀ id ∈ plan.inputIds, 0 ≤ id ∧ id < plan.nInput + plan.nodes.length) :
    (ofPlan plan plan.modelBytes).index = plan.inputIds.map entryOf := by
  have hcount := h.idCount
  simp only [u16Max] at hcount
  rw [index, drop_indexStart h, Record.inputs_flatten, ← List.flatMap_def,
    Wire.wordsOf_flatMap Nat.two_pos (fun id => Wire.length_i16 _), List.map_map]
  refine List.map_congr_left ?_
  intro id hid
  obtain ⟨h₀, hlt⟩ := hids id hid
  rw [Function.comp_apply, toInt_i16, bmod_eq_entryOf h₀ (by omega)]

end ModelSection

/-- **Ids of the index array.** Let all ids that the nodes of a written plan read be ids of the plan.
The array holds one entry for each, a node's entries from the place on that its record says. Every
entry is even. All entries are the doubles of their ids if and only if the ids are below two to the
14, and this is also when no entry is negative: the limit on the number of ids is twice as large. -/
theorem index_of_encode {plan : Plan} {bytes : ByteArray} (h : plan.encode = .ok bytes)
    (hids : ∀ id ∈ plan.inputIds, 0 ≤ id ∧ id < plan.nInput + plan.nodes.length) :
    (ModelSection.ofPlan plan bytes).index = plan.inputIds.map entryOf ∧
    (∀ (i j : Nat) (n : Node) (id : Int), plan.nodes[i]? = some n → n.inputs[j]? = some id →
      (ModelSection.ofPlan plan bytes).index[
        ((ModelSection.ofPlan plan bytes).node i).inputStart / 2 + j]? = some (entryOf id)) ∧
    (∀ e ∈ (ModelSection.ofPlan plan bytes).index, e % 2 = 0) ∧
    ((ModelSection.ofPlan plan bytes).index = plan.inputIds.map (2 * ·) ↔
      ∀ id ∈ plan.inputIds, id < 2 ^ 14) ∧
    ((∀ e ∈ (ModelSection.ofPlan plan bytes).index, 0 ≤ e) ↔
      ∀ id ∈ plan.inputIds, id < 2 ^ 14) := by
  obtain ⟨hplan, rfl⟩ := Plan.encode_eq_ok.mp h
  have hcount := hplan.idCount
  simp only [u16Max] at hcount
  rw [ModelSection.index_ofPlan hplan hids]
  refine ⟨rfl, ?_, ?_, ?_, ?_⟩
  · intro i j n id hn hid
    have hj := (List.getElem?_eq_some_iff.mp hid).1
    have hstart := ((ModelSection.describes_ofPlan hplan).nodes i n hn).inputStart
    rw [hstart, Nat.mul_div_cancel_left _ Nat.two_pos, List.getElem?_map, Plan.inputIds,
      Record.getElem?_inputs hn hj, hid, Option.map_some]
  · simp only [List.forall_mem_map]
    intro id _
    exact entryOf_even id
  · rw [List.map_inj_left]
    exact forall₂_congr fun id _ => entryOf_eq_iff id
  · simp only [List.forall_mem_map]
    refine forall₂_congr ?_
    intro id hid
    obtain ⟨h₀, hlt⟩ := hids id hid
    exact entryOf_nonneg_iff h₀ (by omega)

theorem twoNodePlan_index :
    twoNodePlan.encode = .ok twoNodePlan.modelBytes ∧
    (∀ id ∈ twoNodePlan.inputIds,
      0 ≤ id ∧ id < twoNodePlan.nInput + twoNodePlan.nodes.length) ∧
    (ModelSection.ofPlan twoNodePlan twoNodePlan.modelBytes).index = [0, 4, 2] := by
  have hencode : twoNodePlan.encode = .ok twoNodePlan.modelBytes := rfl
  have hids : ∀ id ∈ twoNodePlan.inputIds,
      0 ≤ id ∧ id < twoNodePlan.nInput + twoNodePlan.nodes.length := by decide
  exact ⟨hencode, hids, (index_of_encode hencode hids).1⟩

/-! ## An id that does not fit -/

/-- A node without inputs. -/
def sourceNode (id : Int) : Node := { id := id, name := ascii "more", inputs := [], op := .relu }

/-- A plan whose first node reads the last of 16385 nodes. -/
def farReader : Plan where
  config := { scale := 8, numSlots := 2, nvmSize := 4096 }
  nInput := 0
  nodes :=
    { id := 0, name := ascii "first", inputs := [16384], op := .relu }
      :: (List.range 16384).map fun i : Nat => sourceNode (i + 1)
  params := []
  region1 := .empty
  region2 := .empty
  samples := .empty
  labels := []

theorem length_nodes_farReader : farReader.nodes.length = 16385 := by
  rw [farReader, List.length_cons, List.length_map, List.length_range]

theorem inputIds_farReader : farReader.inputIds = [16384] := by
  have hmore : ((List.range 16384).map fun i : Nat => sourceNode (i + 1)).flatMap
      (fun n => n.inputs) = [] := by
    rw [List.flatMap_eq_nil_iff, List.forall_mem_map]
    intro i _
    rfl
  rw [Plan.inputIds, farReader, List.flatMap_cons, hmore, List.append_nil]

theorem forall_mem_farReader {P : Node → Prop}
    (hfirst : P { id := 0, name := ascii "first", inputs := [16384], op := .relu })
    (hmore : ∀ id, P (sourceNode id)) : ∀ n ∈ farReader.nodes, P n := by
  rw [farReader, List.forall_mem_cons, List.forall_mem_map]
  exact ⟨hfirst, fun i _ => hmore _⟩

theorem inputTotal_farReader (i : Nat) : inputTotal (farReader.nodes.take i) ≤ 1 := by
  have hsub : ((farReader.nodes.take i).flatMap fun n => n.inputs).length ≤
      farReader.inputIds.length :=
    ((List.take_sublist i farReader.nodes).flatMap _).length_le
  rw [List.length_flatMap, inputIds_farReader] at hsub
  exact hsub

theorem encodable_farReader : farReader.Encodable where
  paramCount := rfl
  paramIds := by simp [farReader]
  paramDims := by simp [farReader]
  nodeIds := by
    intro i n hn
    rw [farReader] at hn
    cases i with
    | zero =>
      cases hn
      rfl
    | succ i =>
      rw [List.getElem?_cons_succ, List.getElem?_map, Option.map_eq_some_iff] at hn
      obtain ⟨k, hk, rfl⟩ := hn
      obtain ⟨-, rfl⟩ := List.getElem?_eq_some_iff.mp hk
      simp [sourceNode, farReader]
  idCount := by
    rw [length_nodes_farReader]
    decide
  names := forall_mem_farReader (by decide) fun _ => by simp only [sourceNode]; decide
  starts := by
    intro i _
    have := inputTotal_farReader i
    simp only [u16Max]
    omega
  maxOutputIds := forall_mem_farReader (by decide) fun _ => by simp only [sourceNode]; decide
  flags := forall_mem_farReader rfl fun _ => rfl

/-- The id is written, and is read as a negative number. -/
theorem farReader_not_doubled :
    farReader.encode = .ok farReader.modelBytes ∧
    (∀ id ∈ farReader.inputIds, 0 ≤ id ∧ id < farReader.nInput + farReader.nodes.length) ∧
    (ModelSection.ofPlan farReader farReader.modelBytes).index = [-32768] ∧
    (ModelSection.ofPlan farReader farReader.modelBytes).index ≠ farReader.inputIds.map (2 * ·) := by
  have hids : ∀ id ∈ farReader.inputIds,
      0 ≤ id ∧ id < farReader.nInput + farReader.nodes.length := by
    rw [inputIds_farReader, length_nodes_farReader]
    decide
  have hindex : (ModelSection.ofPlan farReader farReader.modelBytes).index = [-32768] := by
    rw [ModelSection.index_ofPlan encodable_farReader hids, inputIds_farReader]
    rfl
  refine ⟨Plan.encode_eq_ok.mpr ⟨encodable_farReader, rfl⟩, hids, hindex, ?_⟩
  rw [hindex, inputIds_farReader]
  decide

end NetImage
