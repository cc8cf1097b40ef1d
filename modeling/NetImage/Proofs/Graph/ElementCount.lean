import NetImage.Proofs.Graph.Reading
import NetImage.Proofs.Text.Pieces

/-!
# NetImage.Proofs.Graph.ElementCount

The number of elements of a shape and the number of values of a constant. The product of the sizes is
computed modulo two to the 64, and a constant is refused unless it has that many values. With four
sizes at most, this is the product itself. Five sizes can have a product that leaves one.

* `toInt_elementCount_bmod`: what is computed.
* `toInt_elementCount_eq_iff`, `toInt_elementCount`: when it is exact.
* `valueCount_of_parse`: the constants of a text.
-/

namespace NetImage

/-! ## Products of sizes -/

theorem toInt_foldl_mul (dims : List Int64) (a : Int64) :
    (dims.foldl (· * ·) a).toInt = (a.toInt * (dims.map Int64.toInt).prod).bmod (2 ^ 64) := by
  induction dims generalizing a with
  | nil => simp
  | cons d dims ih =>
    rw [List.foldl_cons, ih, Int64.toInt_mul, List.map_cons, List.prod_cons, Int.bmod_mul_bmod,
      Int.mul_assoc]

theorem toInt_elementCount_bmod (dims : List Int64) :
    (elementCount dims).toInt = (dims.map Int64.toInt).prod.bmod (2 ^ 64) := by
  simpa [elementCount] using toInt_foldl_mul dims 1

theorem prod_bounds {dims : List Int64} (h : ∀ d ∈ dims, IsSize d) :
    1 ≤ (dims.map Int64.toInt).prod ∧ (dims.map Int64.toInt).prod ≤ (2 ^ 16 - 1) ^ dims.length := by
  induction dims with
  | nil => simp
  | cons d dims ih =>
    rw [List.forall_mem_cons] at h
    obtain ⟨hlow, hhigh⟩ := ih h.2
    obtain ⟨hd₁, hd₂⟩ := h.1
    rw [List.map_cons, List.prod_cons, List.length_cons, pow_succ']
    constructor
    · nlinarith
    · exact mul_le_mul (by omega) hhigh (by omega) (by norm_num)

/-- The count is exact if and only if the product is a signed word of 64 bits. -/
theorem toInt_elementCount_eq_iff {dims : List Int64} (h : ∀ d ∈ dims, IsSize d) :
    (elementCount dims).toInt = (dims.map Int64.toInt).prod ↔
      (dims.map Int64.toInt).prod < 2 ^ 63 := by
  have hlow := (prod_bounds h).1
  constructor
  · intro heq
    rw [← heq]
    exact Int64.toInt_lt _
  · intro hlt
    rw [toInt_elementCount_bmod]
    exact Int.bmod_eq_of_le (by omega) (by omega)

/-- Four sizes have an exact product below two to the 64, so a count that is not negative is exact. -/
theorem toInt_elementCount {dims : List Int64} (h : ∀ d ∈ dims, IsSize d)
    (hlen : dims.length ≤ 4) (hcount : 0 ≤ (elementCount dims).toInt) :
    (elementCount dims).toInt = (dims.map Int64.toInt).prod := by
  obtain ⟨hlow, hhigh⟩ := prod_bounds h
  have hpow : ((2 ^ 16 - 1 : Int)) ^ dims.length ≤ (2 ^ 16 - 1) ^ 4 :=
    pow_le_pow_right₀ (by norm_num) hlen
  have hlt : (dims.map Int64.toInt).prod < 2 ^ 64 := by
    calc
      _ ≤ _ := hhigh.trans hpow
      _ < _ := by norm_num
  rw [toInt_elementCount_bmod, Int.bmod_def] at hcount ⊢
  norm_num at hlt hcount ⊢
  omega

/-! ## Constants -/

theorem FieldKind.length_of_readDims {s : Bytes} {dims : List Int64} (h : readDims s = .ok dims) :
    0 < dims.length ∧ dims.length ≤ maxDims := by
  unfold readDims at h
  split at h
  · cases h
  · dsimp only at h
    split at h
    · cases h
    · rename_i hle
      have hlen := (mapM_eq_ok.mp h).length_eq
      have hne : 0 < (s.split 0x78).length := List.length_pos_iff.mpr (Bytes.split_ne_nil _ _)
      omega

/-- What the parser sees to: one to six sizes, and as many number texts as are counted. -/
structure ConstDecl.Shaped (c : ConstDecl) : Prop where
  pos : 0 < c.dims.length
  le : c.dims.length ≤ FieldKind.maxDims
  sizes : ∀ d ∈ c.dims, IsSize d
  count : ∀ values, c.data = .inline values → (values.length : Int) = (elementCount c.dims).toInt

theorem Head.count_of_const {line : Int} {tensor : Bytes} {type : ElementType} {dims : List Int64}
    {values : List Bytes} {d : Decl} (h : const_ line tensor type dims (.inline values) = .ok d) :
    (values.length : Int) = (elementCount dims).toInt := by
  simp only [const_] at h
  split at h
  · assumption
  · cases h

theorem shaped_of_parse {text : Bytes} {decls : List Decl} (h : parse text = .ok decls)
    {c : ConstDecl} (hc : .const c ∈ decls) : c.Shaped := by
  refine forall_of_parse (P := fun d => ∀ c, d = .const c → c.Shaped) ?_ h _ hc c rfl
  intro line head
  cases head
  case const =>
    rintro tensor - type - dims ⟨text, hdims⟩ data - d hd c rfl
    obtain ⟨hpos, hle⟩ := FieldKind.length_of_readDims hdims
    obtain rfl := Decl.const.inj (Head.const_eq_ok hd)
    refine ⟨hpos, hle, FieldKind.isSize_of_readDims hdims, ?_⟩
    rintro values rfl
    exact Head.count_of_const hd
  all_goals
    simp only [Yields, Head.build, Head.unary, Head.binary]
    intros
    rename_i hd c hc
    cases hc
    cases hd

/-- **The number of values of a constant.** A constant of an accepted text has one to six sizes, and
as many number texts as their product modulo two to the 64. So there are as many as the shape has
elements if and only if the product is below two to the 63, and always if there are four sizes or
fewer. -/
theorem valueCount_of_parse {text : Bytes} {decls : List Decl} {c : ConstDecl} {values : List Bytes}
    (hparse : parse text = .ok decls) (hc : .const c ∈ decls) (hdata : c.data = .inline values) :
    (1 ≤ c.dims.length ∧ c.dims.length ≤ 6) ∧
      (∀ d ∈ c.dims, 1 ≤ d.toInt ∧ d.toInt ≤ 65535) ∧
      (values.length : Int) = (c.dims.map Int64.toInt).prod.bmod (2 ^ 64) ∧
      ((values.length : Int) = (c.dims.map Int64.toInt).prod ↔
        (c.dims.map Int64.toInt).prod < 2 ^ 63) ∧
      (c.dims.length ≤ 4 → (values.length : Int) = (c.dims.map Int64.toInt).prod) := by
  have hshape := shaped_of_parse hparse hc
  have hcount := hshape.count values hdata
  refine ⟨⟨hshape.pos, hshape.le⟩, ?_, ?_, ?_, ?_⟩
  · intro d hd
    obtain ⟨hlow, hhigh⟩ := hshape.sizes d hd
    omega
  · rw [hcount, toInt_elementCount_bmod]
  · rw [hcount, toInt_elementCount_eq_iff hshape.sizes]
  · intro hlen
    rw [hcount, toInt_elementCount hshape.sizes hlen (by omega)]

/-- A constant of six values in six dims. -/
def sixDims : Bytes := ascii "Const ToTensor=k Type=Int64 Dims=1x2x1x3x1x1 Data=1,2,3,4,5,-6\n"

theorem sixDims_valueCount :
    ∃ decls c values, parse sixDims = .ok decls ∧ .const c ∈ decls ∧ c.data = .inline values ∧
      c.dims.length = 6 ∧ (c.dims.map Int64.toInt).prod = 6 ∧
      (values.length : Int) = (c.dims.map Int64.toInt).prod := by
  have hparse : parse sixDims = .ok [.const ⟨1, ascii "k", .int64, [1, 2, 1, 3, 1, 1],
      .inline [ascii "1", ascii "2", ascii "3", ascii "4", ascii "5", ascii "-6"]⟩] := by
    decide +kernel
  obtain ⟨-, -, -, hcount, -⟩ := valueCount_of_parse hparse List.mem_cons_self rfl
  exact ⟨_, _, _, hparse, List.mem_cons_self, rfl, rfl, by decide, hcount.mpr (by decide)⟩

/-- A constant of one value whose five dims have a product of one modulo two to the 64. -/
def fiveDims : Bytes := ascii
  "Const ToTensor=w Type=Float Dims=26341x58313x64669x65039x64487 Data=0.5\n"

/-- It is accepted, and its shape has more elements than one. -/
theorem fiveDims_not_valueCount :
    ∃ decls c values, parse fiveDims = .ok decls ∧ .const c ∈ decls ∧ c.data = .inline values ∧
      values.length = 1 ∧ (c.dims.map Int64.toInt).prod = 416619714904730223247361 := by
  have hparse : parse fiveDims = .ok [.const ⟨1, ascii "w", .float,
      [26341, 58313, 64669, 65039, 64487], .inline [ascii "0.5"]⟩] := by
    decide +kernel
  exact ⟨_, _, _, hparse, List.mem_cons_self, rfl, rfl, by decide⟩

end NetImage
