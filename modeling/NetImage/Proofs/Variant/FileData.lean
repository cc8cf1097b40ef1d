import NetImage.Proofs.Variant.Compile

/-!
# NetImage.Proofs.Variant.FileData

Values in files. It makes no difference whether the numbers of a constant stand in the graph or their
words in a file.

* `Decl.Refiled`: a declaration with its values moved to a file.
* `compileDecls_refiled`: the outcome with any of the constants moved.
-/

namespace NetImage

/-- The same declaration, or a constant whose number texts are replaced by a file with their words. -/
inductive Decl.Refiled (read : FileReader) : Decl → Decl → Prop
  | same (d : Decl) : Refiled read d d
  | moved (c : ConstDecl) {data : ConstData} (h : SameValues read c.type c.data data) :
      Refiled read (.const c) (.const { c with data := data })

theorem Decl.Refiled.like {read : FileReader} {d d' : Decl} (h : Refiled read d d') :
    d.Like Eq read d' := by
  cases h with
  | same => exact .refl read d
  | moved c h => exact .const ⟨rfl, rfl, rfl, h⟩

/-- With the values of any of its constants moved to files, a graph fails if it failed before, and
otherwise compiles to the same model. -/
theorem compileDecls_refiled {read : FileReader} {decls decls' : List Decl}
    (h : List.Forall₂ (Decl.Refiled read) decls decls') (samples : List Sample) (config : Config) :
    (compileDecls decls' samples config read).result.toOption =
      (compileDecls decls samples config read).result.toOption :=
  toOption_compileDecls_eq (Sources.like_byKind (h.imp fun _ _ hd => hd.like)) samples config

theorem readFloat32_of_bits {text : Bytes} {w : UInt32}
    (h : (readFloat32 text).map Float32.toBits = .ok w) :
    readFloat32 text = .ok (Float32.ofBits w) := by
  obtain ⟨x, hx, rfl⟩ := map_eq_ok.mp h
  rw [hx, Float32.ofBits_toBits]

/-- A convolution and a reshape of its output, with the given weights and extents. -/
def convThenReshape (weights extents : ConstData) : List Decl :=
  [.input ⟨1, ascii "x", 1, 1, 1⟩,
   .const ⟨2, ascii "w", .float, [1, 3, 1, 1], weights⟩,
   .const ⟨3, ascii "e", .int64, [2], extents⟩,
   .op ⟨4, ascii "c", .conv (ascii "x") (ascii "w") none (ascii "y") [1, 1] .valid⟩,
   .op ⟨5, ascii "r", .plain .reshape [ascii "y", ascii "e"] [ascii "z"]⟩]

/-- Negative zero, a tenth and a number beyond range; the least and the greatest integer. -/
def numberTexts : List Decl :=
  convThenReshape (.inline [ascii "-0", ascii "0.1", ascii "-10"])
    (.inline [ascii "-9223372036854775808", ascii "9223372036854775807"])

/-- The same numbers in files. -/
def numberFiles : List Decl := convThenReshape (.file (ascii "w.bin")) (.file (ascii "e.bin"))

def readNumbers : FileReader := fun path =>
  if path = ascii "w.bin" then
    .ok ⟨#[0x00, 0x00, 0x00, 0x80, 0xcd, 0xcc, 0xcc, 0x3d, 0x00, 0x00, 0x20, 0xc1]⟩
  else if path = ascii "e.bin" then
    .ok ⟨#[0, 0, 0, 0, 0, 0, 0, 0x80, 0xff, 0xff, 0xff, 0xff, 0xff, 0xff, 0xff, 0x7f]⟩
  else .error []

theorem numberTexts_refiled :
    ∃ c, (compileDecls numberTexts [] { scale := 8, nvmSize := 2000 } readNumbers).result = .ok c ∧
      c.overflows = 1 ∧ List.Forall₂ (Decl.Refiled readNumbers) numberTexts numberFiles ∧
      (compileDecls numberFiles [] { scale := 8, nvmSize := 2000 } readNumbers).result.toOption =
        some c := by
  have hreals : SameValues readNumbers .float (.inline [ascii "-0", ascii "0.1", ascii "-10"])
      (.file (ascii "w.bin")) := by
    refine .reals (.cons (readFloat32_of_bits (w := 0x80000000) ?_)
      (.cons (readFloat32_of_bits (w := 0x3dcccccd) ?_)
        (.cons (readFloat32_of_bits (w := 0xc1200000) ?_) .nil))) rfl ?_ <;> decide +kernel
  have hintegers : SameValues readNumbers .int64
      (.inline [ascii "-9223372036854775808", ascii "9223372036854775807"])
      (.file (ascii "e.bin")) := by
    refine .integers (.cons (b := -9223372036854775808) ?_ (.cons (b := 9223372036854775807) ?_ .nil))
      rfl ?_ <;> decide +kernel
  have hmoved : List.Forall₂ (Decl.Refiled readNumbers) numberTexts numberFiles :=
    .cons (.same _) (.cons (.moved ⟨2, _, .float, _, _⟩ hreals)
      (.cons (.moved ⟨3, _, .int64, _, _⟩ hintegers) (.cons (.same _) (.cons (.same _) .nil))))
  have hok : (compileDecls numberTexts [] { scale := 8, nvmSize := 2000 } readNumbers).result.map
      Compiled.overflows = .ok 1 := by
    decide +kernel
  obtain ⟨c, hc, hoverflows⟩ := map_eq_ok.mp hok
  refine ⟨c, hc, hoverflows, hmoved, ?_⟩
  rw [compileDecls_refiled hmoved, hc]
  rfl

end NetImage
