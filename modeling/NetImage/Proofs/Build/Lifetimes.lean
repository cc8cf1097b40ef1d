import NetImage.Proofs.Build.Operands
import NetImage.Proofs.Model.Decoding

/-!
# NetImage.Proofs.Build.Lifetimes

How long the output of a node is needed, in terms of the nodes alone. Both passes of the analysis are
about steps and their places; here they are read off the finished nodes and their ids.

* `Lifetime.lastReader`, `Lifetime.lastConcatReader`: the last node that reads an id, directly or in a
  concatenation.
* `Lifetime.cast_lastReader`, `Lifetime.cast_lastConcatReader`: they are what the passes find.
* `Lifetime.Ordered`: ids are places, and what a node reads stands before it.
* `lives_of_numbering`: the lives of all nodes.
-/

namespace NetImage
namespace Lifetime

/-- The largest of some ids, or zero. -/
def largest (ids : List Int) : Int := ids.foldr max 0

theorem largest_le_iff {ids : List Int} {b : Int} :
    largest ids ≤ b ↔ 0 ≤ b ∧ ∀ id ∈ ids, id ≤ b := by
  induction ids with
  | nil => simp [largest]
  | cons id ids ih =>
    rw [largest, List.foldr_cons, ← largest, max_le_iff, ih, List.forall_mem_cons]
    tauto

/-- The largest id of a node that reads `id`, or zero. -/
def lastReader (nodes : List Node) (id : Int) : Int :=
  largest ((nodes.filter fun m => m.inputs.contains id).map Node.id)

/-- The largest id of a node that reads a concatenation of `id`, or zero. -/
def lastConcatReader (nodes : List Node) (id : Int) : Int :=
  largest ((nodes.filter fun c => c.op = .concat && c.inputs.contains id).map fun c =>
    lastReader nodes c.id)

theorem lastReader_le_iff {nodes : List Node} {id b : Int} :
    lastReader nodes id ≤ b ↔ 0 ≤ b ∧ ∀ m ∈ nodes, id ∈ m.inputs → m.id ≤ b := by
  rw [lastReader, largest_le_iff, List.forall_mem_map]
  simp

theorem lastConcatReader_le_iff {nodes : List Node} {id b : Int} :
    lastConcatReader nodes id ≤ b ↔
      0 ≤ b ∧ ∀ c ∈ nodes, c.op = .concat → id ∈ c.inputs → lastReader nodes c.id ≤ b := by
  rw [lastConcatReader, largest_le_iff, List.forall_mem_map]
  simp

theorem lastReader_nonneg (nodes : List Node) (id : Int) : 0 ≤ lastReader nodes id :=
  (lastReader_le_iff.mp le_rfl).1

/-! ## Nodes of numbered steps -/

section Numbered

variable {numbering : Numbering} {live : List Nat} {flags : List Flags}

theorem exists_node (hlive : live.length = numbering.steps.length)
    (hflags : flags.length = numbering.steps.length) {i : Nat} {s : NumberedStep}
    (h : numbering.steps[i]? = some s) :
    ∃ n, (Compile.nodes numbering live flags)[i]? = some n ∧
      n.id = (numbering.params.length + i : Nat) ∧ n.op = s.step.type ∧
      n.inputs = s.inputs.map Int.ofNat := by
  have hi := (List.getElem?_eq_some_iff.mp h).1
  refine ⟨_, Compile.getElem?_nodes.mpr ⟨s, _, _, h, List.getElem?_eq_getElem (hlive ▸ hi),
    List.getElem?_eq_getElem (hflags ▸ hi), rfl⟩, ?_, rfl, rfl⟩
  push_cast
  rfl

/-- What holds of every node that reads an id holds of every step that does. -/
theorem forall_readers_iff (hlive : live.length = numbering.steps.length)
    (hflags : flags.length = numbering.steps.length) (id : Nat) {P : Int → OpType → Prop} :
    (∀ m ∈ Compile.nodes numbering live flags, (id : Int) ∈ m.inputs → P m.id m.op) ↔
      ∀ (j : Nat) (s : NumberedStep), numbering.steps[j]? = some s → id ∈ s.inputs →
        P (numbering.params.length + j : Nat) s.step.type := by
  have hmem : ∀ s : NumberedStep, (id : Int) ∈ s.inputs.map Int.ofNat ↔ id ∈ s.inputs := by
    intro s
    simp
  constructor
  · intro h j s hs hid
    obtain ⟨n, hn, hnid, hop, hinputs⟩ := exists_node hlive hflags hs
    have := h n (List.mem_of_getElem? hn) (hinputs ▸ (hmem s).mpr hid)
    rwa [hnid, hop] at this
  · intro h m hm hid
    obtain ⟨j, hj⟩ := List.mem_iff_getElem?.mp hm
    obtain ⟨s, last, flag, hs, -, -, rfl⟩ := Compile.getElem?_nodes.mp hj
    have := h j s hs ((hmem s).mp hid)
    push_cast at this
    exact this

theorem cast_lastReader (hlive : live.length = numbering.steps.length)
    (hflags : flags.length = numbering.steps.length) (id : Nat) :
    (Liveness.lastReader numbering.params.length numbering.steps id : Int) =
      lastReader (Compile.nodes numbering live flags) id := by
  refine eq_of_forall_ge_iff ?_
  intro b
  rw [lastReader_le_iff, forall_readers_iff hlive hflags id (P := fun i _ => i ≤ b)]
  cases b with
  | ofNat b =>
    rw [Int.ofNat_eq_natCast, Nat.cast_le, Liveness.lastReader, Liveness.overReaders_le_iff]
    simp only [Nat.cast_nonneg, true_and, Nat.cast_le]
  | negSucc b => omega

theorem cast_lastConcatReader (hlive : live.length = numbering.steps.length)
    (hflags : flags.length = numbering.steps.length) (id : Nat) :
    (Liveness.lastConcatReader numbering.params.length numbering.steps id : Int) =
      lastConcatReader (Compile.nodes numbering live flags) id := by
  refine eq_of_forall_ge_iff ?_
  intro b
  have hreaders := forall_readers_iff hlive hflags id (P := fun i op =>
    op = .concat → lastReader (Compile.nodes numbering live flags) i ≤ b)
  have hswap : (∀ c ∈ Compile.nodes numbering live flags, c.op = .concat → (id : Int) ∈ c.inputs →
      lastReader (Compile.nodes numbering live flags) c.id ≤ b) ↔
      ∀ c ∈ Compile.nodes numbering live flags, (id : Int) ∈ c.inputs → c.op = .concat →
        lastReader (Compile.nodes numbering live flags) c.id ≤ b :=
    forall₂_congr fun c _ => ⟨fun h hid hop => h hop hid, fun h hop hid => h hid hop⟩
  rw [lastConcatReader_le_iff, hswap, hreaders]
  cases b with
  | ofNat b =>
    rw [Int.ofNat_eq_natCast, Nat.cast_le, Liveness.lastConcatReader, Liveness.overReaders_le_iff]
    simp only [Nat.zero_add, Nat.cast_nonneg, true_and, ← cast_lastReader hlive hflags, Nat.cast_le]
    refine forall₃_congr fun j s _ => forall_congr' fun _ => ?_
    split <;> simp_all
  | negSucc b => omega

end Numbered

/-! ## What follows from the formula -/

/-- Ids are places behind `nInput` parameters, and every node reads only smaller ids. -/
structure Ordered (nInput : Nat) (nodes : List Node) : Prop where
  ids : ∀ (i : Nat) (n : Node), nodes[i]? = some n → n.id = (nInput + i : Nat)
  inputs : ∀ m ∈ nodes, ∀ id ∈ m.inputs, id < m.id

/-- The life of a node's output. -/
structure Lives (nInput : Nat) (nodes : List Node) (n : Node) : Prop where
  /-- It is needed by the last node that reads it or reads a concatenation of it. -/
  formula : n.maxOutputId = max (lastReader nodes n.id) (lastConcatReader nodes n.id)
  /-- It is zero if no node reads the output, and only then. -/
  eq_zero_iff : n.maxOutputId = 0 ↔ ∀ m ∈ nodes, n.id ∉ m.inputs
  /-- Otherwise it is the id of a node behind this one. -/
  between : n.maxOutputId ≠ 0 → n.id < n.maxOutputId ∧ n.maxOutputId < nInput + nodes.length
  /-- What a concatenation reads is needed as long as the concatenation is. -/
  concat : ∀ c ∈ nodes, c.op = .concat → n.id ∈ c.inputs →
    c.id ≤ n.maxOutputId ∧ lastReader nodes c.id ≤ n.maxOutputId

section

variable {nInput : Nat} {nodes : List Node} (h : Ordered nInput nodes)
include h

theorem Ordered.id_bounds {n : Node} (hn : n ∈ nodes) : 0 ≤ n.id ∧ n.id < nInput + nodes.length := by
  obtain ⟨i, hi⟩ := List.mem_iff_getElem?.mp hn
  have hlt := (List.getElem?_eq_some_iff.mp hi).1
  rw [h.ids i n hi]
  omega

theorem Ordered.lastReader_lt {n : Node} (hn : n ∈ nodes) (id : Int) :
    lastReader nodes id ≤ nInput + nodes.length - 1 := by
  refine lastReader_le_iff.mpr ⟨?_, ?_⟩
  · have := h.id_bounds hn
    omega
  · intro m hm _
    have := h.id_bounds hm
    omega

theorem Ordered.lives {n : Node} (hn : n ∈ nodes)
    (hformula : n.maxOutputId = max (lastReader nodes n.id) (lastConcatReader nodes n.id)) :
    Lives nInput nodes n := by
  have hreader : ∀ m ∈ nodes, n.id ∈ m.inputs → m.id ≤ n.maxOutputId := by
    intro m hm hread
    exact hformula ▸ ((lastReader_le_iff.mp le_rfl).2 m hm hread).trans (le_max_left _ _)
  have hpos := (h.id_bounds hn).1
  have hzero : n.maxOutputId = 0 ↔ ∀ m ∈ nodes, n.id ∉ m.inputs := by
    constructor
    · intro hlife m hm hread
      have := h.inputs m hm _ hread
      have := hreader m hm hread
      omega
    · intro hnone
      have hdirect : lastReader nodes n.id ≤ 0 :=
        lastReader_le_iff.mpr ⟨le_rfl, fun m hm hread => absurd hread (hnone m hm)⟩
      have hconcat : lastConcatReader nodes n.id ≤ 0 :=
        lastConcatReader_le_iff.mpr ⟨le_rfl, fun m hm _ hread => absurd hread (hnone m hm)⟩
      have := lastReader_nonneg nodes n.id
      omega
  refine ⟨hformula, hzero, ?_, ?_⟩
  · intro hlife
    refine ⟨?_, ?_⟩
    · -- some node reads the output, and it stands behind
      have hsome := mt hzero.mpr hlife
      push Not at hsome
      obtain ⟨m, hm, hread⟩ := hsome
      exact (h.inputs m hm _ hread).trans_le (hreader m hm hread)
    · have hdirect := h.lastReader_lt hn n.id
      have hconcat : lastConcatReader nodes n.id ≤ nInput + nodes.length - 1 :=
        lastConcatReader_le_iff.mpr
          ⟨(lastReader_nonneg nodes n.id).trans hdirect, fun c _ _ _ => h.lastReader_lt hn c.id⟩
      omega
  · intro c hc hop hread
    refine ⟨hreader c hc hread, ?_⟩
    exact hformula ▸ ((lastConcatReader_le_iff.mp le_rfl).2 c hc hop hread).trans (le_max_right _ _)

end

/-- A plan that can be written leaves the mark of a dead output free. -/
theorem Lives.lt_invalid {plan : Plan} {nInput : Nat} (hnInput : plan.nInput = nInput) {n : Node}
    (hlives : Lives nInput plan.nodes n) {bytes : ByteArray} (hencode : plan.encode = .ok bytes) :
    n.maxOutputId < maxOutputIdInvalid := by
  have hids := (Plan.encode_eq_ok.mp hencode).1.idCount
  have hbetween := hlives.between
  simp only [u16Max] at hids
  simp only [maxOutputIdInvalid]
  omega

end Lifetime

namespace Compile.Indexed

variable {decls : List Decl} (st : Indexed decls) {flags : List Flags}

theorem input_lt_params {i : Nat} {s : NumberedStep} (h : st.numbering.steps[i]? = some s) :
    ∀ id ∈ s.inputs, id < st.numbering.params.length + i := by
  rw [st.length_params, st.names_eq]
  exact st.input_lt h

theorem ordered_nodes (live : List Nat) :
    Lifetime.Ordered st.numbering.params.length (nodes st.numbering live flags) := by
  refine ⟨?_, ?_⟩
  · intro i n hn
    obtain ⟨s, last, flag, -, -, -, rfl⟩ := getElem?_nodes.mp hn
    push_cast
    rfl
  · intro m hm id hid
    obtain ⟨j, hj⟩ := List.mem_iff_getElem?.mp hm
    obtain ⟨s, last, flag, hs, -, -, rfl⟩ := getElem?_nodes.mp hj
    obtain ⟨k, hk, rfl⟩ := List.mem_map.mp hid
    have := st.input_lt_params hs k hk
    simp only [Int.ofNat_eq_natCast]
    omega

theorem maxOutputId_eq (hflags : flags.length = st.numbering.steps.length) {ns : List Node}
    (hns : ns = nodes st.numbering
      (lastNeeded st.numbering.params.length st.numbering.steps) flags) {n : Node} (hn : n ∈ ns) :
    n.maxOutputId = max (Lifetime.lastReader ns n.id) (Lifetime.lastConcatReader ns n.id) := by
  subst hns
  have hlive := length_lastNeeded st.numbering.params.length st.numbering.steps
  obtain ⟨i, hi⟩ := List.mem_iff_getElem?.mp hn
  obtain ⟨s, last, flag, hs, hlast, -, rfl⟩ := getElem?_nodes.mp hi
  have hid : ((st.numbering.params.length : Int) + i) = (st.numbering.params.length + i : Nat) := by
    push_cast
    rfl
  rw [getElem?_lastNeeded (fun j s hs => st.input_lt_params hs)
    (List.getElem?_eq_some_iff.mp hs).1, Option.some.injEq] at hlast
  simp only [hid]
  rw [← Lifetime.cast_lastReader hlive hflags, ← Lifetime.cast_lastConcatReader hlive hflags,
    ← hlast, Nat.cast_max, max_comm]

end Compile.Indexed

/-- **Lives in closed form.** Once a graph is numbered, with whatever flags, the output of each node
lives until the last node that reads it or reads a concatenation of it. So its life is zero exactly if
no node reads it, and otherwise an id behind its own; a source of a concatenation lives as long as the
concatenation; and in a plan that can be written no life is the mark of a dead output. -/
theorem lives_of_numbering {decls : List Decl} {sources : Sources} {folding : Folding}
    {steps : List Step} {numbering : Numbering} {flags : List Flags} {nodes : List Node}
    (hsources : Sources.ofDecls decls = .ok sources)
    (hfolding : (Folding.ofSources sources).result = .ok folding)
    (hsteps : (Step.ofSources sources folding).result = .ok steps)
    (hnumbering : Numbering.ofSteps sources.inputs (sources.consts.map folding.reshape) steps =
      .ok numbering)
    (hflags : flags.length = numbering.steps.length)
    (hnodes : nodes = Compile.nodes numbering
      (lastNeeded numbering.params.length numbering.steps) flags) :
    ∀ n ∈ nodes, Lifetime.Lives numbering.params.length nodes n ∧
      ∀ (plan : Plan) (bytes : ByteArray), plan.nInput = numbering.params.length →
        plan.nodes = nodes → plan.encode = .ok bytes → n.maxOutputId < maxOutputIdInvalid := by
  let st : Compile.Indexed decls :=
    ⟨sources, folding, steps, numbering, hsources, hfolding, hsteps, hnumbering⟩
  have hordered : Lifetime.Ordered numbering.params.length nodes := hnodes ▸ st.ordered_nodes _
  intro n hn
  have hlives := hordered.lives hn (st.maxOutputId_eq hflags hnodes hn)
  refine ⟨hlives, ?_⟩
  rintro plan bytes hnInput rfl hencode
  exact hlives.lt_invalid hnInput hencode

/-- A concatenation of a concatenation: `a` and `b` in `c`, then `c` and `z` in `e`. -/
def nestedConcats : List Decl :=
  [.input ⟨1, ascii "x", 1, 2, 2⟩,
   .op ⟨2, ascii "a", .plain .relu [ascii "x"] [ascii "a"]⟩,
   .op ⟨3, ascii "b", .plain .relu [ascii "x"] [ascii "b"]⟩,
   .op ⟨4, ascii "c", .concat [ascii "a", ascii "b"] (ascii "c") 1⟩,
   .op ⟨5, ascii "z", .plain .relu [ascii "x"] [ascii "z"]⟩,
   .op ⟨6, ascii "e", .concat [ascii "c", ascii "z"] (ascii "e") 1⟩,
   .op ⟨7, ascii "f", .plain .relu [ascii "e"] [ascii "f"]⟩]

/-- The inner sources live until the outer concatenation and not until what reads it. -/
theorem nestedConcats_lives :
    ∃ (plan : Plan) (overflows : Nat) (bytes : ByteArray),
      (Compile.plan nestedConcats [] { scale := 8 } fun _ => .error []).result =
        .ok (plan, overflows) ∧
      plan.encode = .ok bytes ∧ plan.nodes.map Node.maxOutputId = [5, 5, 6, 6, 6, 0] ∧
      ∀ n ∈ plan.nodes, Lifetime.Lives 1 plan.nodes n ∧ n.maxOutputId < maxOutputIdInvalid := by
  have hrun : (Compile.plan nestedConcats [] { scale := 8 } fun _ => .error []).result.map
      (fun r => (r.1.nInput, r.1.encode.isOk, r.1.nodes.map Node.maxOutputId)) =
      .ok (1, true, [5, 5, 6, 6, 6, 0]) := by
    decide +kernel
  obtain ⟨⟨plan, overflows⟩, hplan, hrun⟩ := map_eq_ok.mp hrun
  simp only [Prod.mk.injEq] at hrun
  obtain ⟨hnInput, hok, hlives⟩ := hrun
  obtain ⟨bytes, hencode⟩ := exists_of_isOk hok
  obtain ⟨st⟩ := Compile.planned_of_plan hplan
  have hparams : plan.nInput = st.numbering.params.length := congrArg Plan.nInput st.hplan
  have hone : st.numbering.params.length = 1 := by omega
  refine ⟨plan, overflows, bytes, hplan, hencode, hlives, ?_⟩
  intro n hn
  obtain ⟨hlife, hvalid⟩ := lives_of_numbering st.hsources st.hfolding st.hsteps st.hnumbering
    st.length_flags st.nodes_eq n hn
  exact ⟨hone ▸ hlife, hvalid plan bytes hparams rfl hencode⟩

end NetImage
