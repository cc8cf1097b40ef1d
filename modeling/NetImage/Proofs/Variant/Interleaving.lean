import NetImage.Proofs.Graph.Language
import NetImage.Proofs.Variant.Compile

/-!
# NetImage.Proofs.Variant.Interleaving

The order of the declarations. Inputs, constants and operators each have an order, but how the three
are mixed, and on which lines they stand, makes no difference.

* `compileDecls_interleaved`: the outcome for any other mix.
-/

namespace NetImage

/-- Lines are set in each kind by itself. -/
theorem Sources.byKind_atLine (line : Int) (decls : List Decl) :
    byKind (decls.map (Decl.atLine line)) =
      ⟨(byKind decls).inputs.map fun i => { i with line := line },
        (byKind decls).consts.map fun c => { c with line := line },
        (byKind decls).ops.map fun op => { op with line := line }⟩ := by
  simp only [byKind, List.filterMap_map, List.map_filterMap, Sources.mk.injEq]
  refine ⟨congrArg (decls.filterMap ·) ?_, congrArg (decls.filterMap ·) ?_,
    congrArg (decls.filterMap ·) ?_⟩
  all_goals
    funext d
    cases d <;> rfl

/-- Lists that are equal after a function was applied have equal values one by one. -/
theorem forall₂_of_map_eq {α β : Type} {f : α → β} {xs ys : List α} (h : xs.map f = ys.map f) :
    List.Forall₂ (fun x y => f x = f y) xs ys := by
  rwa [← List.forall₂_eq_eq_eq, List.forall₂_map_left_iff, List.forall₂_map_right_iff] at h

theorem Sources.like_of_lines {decls decls' : List Decl} (read : FileReader)
    (h : byKind (decls.map (Decl.atLine 0)) = byKind (decls'.map (Decl.atLine 0))) :
    (byKind decls).Like Eq read (byKind decls') := by
  rw [byKind_atLine, byKind_atLine, Sources.mk.injEq] at h
  obtain ⟨hinputs, hconsts, hops⟩ := h
  refine ⟨(forall₂_of_map_eq hinputs).imp ?_, (forall₂_of_map_eq hconsts).imp ?_,
    (forall₂_of_map_eq hops).imp ?_⟩
  · rintro ⟨line, tensor, channels, height, width⟩ ⟨line', _, _, _, _⟩ heq
    cases heq
    exact ⟨rfl, rfl, rfl, rfl⟩
  · rintro ⟨line, tensor, type, dims, data⟩ ⟨line', _, _, _, _⟩ heq
    cases heq
    exact ⟨rfl, rfl, rfl, .same type data⟩
  · rintro ⟨line, name, body⟩ ⟨line', _, _⟩ heq
    cases heq
    exact ⟨rfl, .refl body⟩

/-- If two graphs have the same inputs, the same constants and the same operators, each kind in the
same order and lines aside, both fail or both compile to the same model. -/
theorem compileDecls_interleaved {decls decls' : List Decl}
    (h : Sources.byKind (decls.map (Decl.atLine 0)) = Sources.byKind (decls'.map (Decl.atLine 0)))
    (samples : List Sample) (config : Config) (read : FileReader) :
    (compileDecls decls' samples config read).result.toOption =
      (compileDecls decls samples config read).result.toOption :=
  toOption_compileDecls_eq (Sources.like_of_lines read h) samples config

/-- Two inputs, two constants and two operators, kind by kind. -/
def kindByKind : List Decl :=
  [.input ⟨1, ascii "x", 1, 1, 1⟩,
   .input ⟨2, ascii "u", 1, 2, 2⟩,
   .const ⟨3, ascii "w", .int64, [1], .inline [ascii "3"]⟩,
   .const ⟨4, ascii "b", .int64, [2, 1], .inline [ascii "7", ascii "-7"]⟩,
   .op ⟨5, ascii "c", .conv (ascii "x") (ascii "w") (some (ascii "b")) (ascii "y") [1, 1] .valid⟩,
   .op ⟨6, ascii "a", .plain .add [ascii "y", ascii "u"] [ascii "z"]⟩]

/-- The same with the operators in front of what they read. -/
def operatorsFirst : List Decl :=
  [.op ⟨1, ascii "c", .conv (ascii "x") (ascii "w") (some (ascii "b")) (ascii "y") [1, 1] .valid⟩,
   .const ⟨3, ascii "w", .int64, [1], .inline [ascii "3"]⟩,
   .input ⟨3, ascii "x", 1, 1, 1⟩,
   .op ⟨4, ascii "a", .plain .add [ascii "y", ascii "u"] [ascii "z"]⟩,
   .input ⟨9, ascii "u", 1, 2, 2⟩,
   .const ⟨8, ascii "b", .int64, [2, 1], .inline [ascii "7", ascii "-7"]⟩]

theorem kindByKind_interleaved :
    ∃ c, (compileDecls kindByKind [] { scale := 8, nvmSize := 2000 } fun _ => .error []).result =
        .ok c ∧
      (compileDecls operatorsFirst [] { scale := 8, nvmSize := 2000 } fun _ =>
        .error []).result.toOption = some c := by
  have hok : (compileDecls kindByKind [] { scale := 8, nvmSize := 2000 } fun _ =>
      .error []).result.isOk = true := by
    decide +kernel
  have hkinds : Sources.byKind (kindByKind.map (Decl.atLine 0)) =
      Sources.byKind (operatorsFirst.map (Decl.atLine 0)) := rfl
  obtain ⟨c, hc⟩ := exists_of_isOk hok
  refine ⟨c, hc, ?_⟩
  rw [compileDecls_interleaved hkinds, hc]
  rfl

end NetImage
