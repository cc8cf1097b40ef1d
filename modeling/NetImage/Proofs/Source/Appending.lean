import NetImage.Proofs.Source.Rendering

/-!
# NetImage.Proofs.Source.Appending

Fragments only append. A fragment writes the same bytes behind any buffer, even where it looks back to
see how a statement ended, so the parts of a file can be written in any order.

* `Fragment.emit_eq_append`: a buffer stays as it is in front of what is written.
* `Fragment.Terminated`: a statement with what it lacked.
* `Fragment.emit_appends`: any fragment, lists of statements, and sections.
-/

namespace NetImage
namespace Fragment

/-- What a fragment writes into an empty buffer. -/
def output (f : Fragment) : Bytes := (f.emit .empty).data.toList

theorem output_eq_rendered (f : Fragment) : f.output = f.rendered :=
  toList_emit f .empty

theorem emit_eq_append (f : Fragment) (buffer : ByteArray) :
    f.emit buffer = buffer ++ f.emit .empty := by
  apply ByteArray.ext
  rw [← Array.toList_inj, toList_emit, ByteArray.toList_data_append, ← output, output_eq_rendered]

/-- The second text is the statement in the first one with what it lacked: nothing if it ends with a
line break, a line break if it ends with a closing brace or a semicolon, and both otherwise. -/
inductive Terminated : Bytes → Bytes → Prop
  | line {t : Bytes} (h : t.getLast? = some 0x0a) : Terminated t t
  | closed {t : Bytes} (h : t.getLast? = some 0x7d ∨ t.getLast? = some 0x3b) :
      Terminated t (t ++ [0x0a])
  | bare {t : Bytes} {b : UInt8} (h : t.getLast? = some b)
      (hb : b ≠ 0x0a ∧ b ≠ 0x7d ∧ b ≠ 0x3b) : Terminated t (t ++ [0x3b, 0x0a])

theorem terminated_ending {t : Bytes} (h : t ≠ []) : Terminated t (t ++ ending t) := by
  have hb := List.getLast?_eq_some_getLast h
  simp only [ending, hb, terminator]
  split
  · rename_i hline
    rw [List.append_nil]
    exact .line (hline ▸ hb)
  · rename_i hline
    split
    · rename_i hclosed
      refine .closed ?_
      rw [hb]
      exact hclosed.imp (congrArg some) (congrArg some)
    · rename_i hclosed
      exact .bare hb ⟨hline, not_or.mp hclosed⟩

theorem Terminated.getLast?_eq {t u : Bytes} (h : Terminated t u) : u.getLast? = some 0x0a := by
  cases h with
  | line h => exact h
  | closed h => exact List.getLast?_concat
  | bare h hb => simp

theorem getLast?_flatten {ts us : List Bytes} (h : List.Forall₂ Terminated ts us) :
    us.flatten = [] ∨ us.flatten.getLast? = some 0x0a := by
  induction h with
  | nil => exact .inl rfl
  | cons hu _ ih =>
    rw [List.flatten_cons]
    rcases ih with ih | ih
    · rw [ih, List.append_nil]
      exact .inr hu.getLast?_eq
    · rw [List.getLast?_append, ih]
      exact .inr rfl

/-- The statements of a list that are not empty, each terminated. -/
theorem exists_terminated (fs : List Fragment) :
    ∃ us, List.Forall₂ Terminated ((fs.map output).filter (· ≠ [])) us ∧
      (Fragment.stmts fs).output = us.flatten := by
  simp only [output_eq_rendered, rendered]
  induction fs with
  | nil => exact ⟨[], .nil, rfl⟩
  | cons f fs ih =>
    obtain ⟨us, hus, heq⟩ := ih
    rw [renderedStmts, heq, List.map_cons, output_eq_rendered]
    by_cases hf : f.rendered = []
    · refine ⟨us, ?_, by rw [hf]; rfl⟩
      rwa [List.filter_cons_of_neg (by simp [hf])]
    · refine ⟨(f.rendered ++ ending f.rendered) :: us, ?_, by rw [List.flatten_cons]⟩
      rw [List.filter_cons_of_pos (by simp [hf])]
      exact .cons (terminated_ending hf) hus

/-- **Fragments only append.** Whatever a buffer holds, a fragment leaves it as it is and writes behind
it what it writes into an empty one. A list of statements writes those that are there and not empty,
each terminated, so that it ends with a line break if it writes anything. Sections that are written to
hold what they held, followed by what each fragment writes. -/
theorem emit_appends :
    (∀ (f : Fragment) (buffer : ByteArray), f.emit buffer = buffer ++ f.emit .empty) ∧
    (∀ parts : List (Option Fragment),
      (∃ us, List.Forall₂ Terminated (((parts.filterMap id).map output).filter (· ≠ [])) us ∧
        (statements parts).output = us.flatten) ∧
      ((statements parts).output = [] ∨ (statements parts).output.getLast? = some 0x0a)) ∧
    ∀ (s : Sections) (p : Part) (parts : List (Option Fragment)) (q : Part),
      (s.appendAll p (parts.filterMap id)).text q =
        s.text q ++ if q = p then (parts.filterMap id).flatMap output else [] := by
  refine ⟨emit_eq_append, fun parts => ?_, fun s p parts q => ?_⟩
  · obtain ⟨us, hus, heq⟩ := exists_terminated (parts.filterMap id)
    refine ⟨⟨us, hus, heq⟩, ?_⟩
    rw [statements, heq]
    exact getLast?_flatten hus
  · rw [funext output_eq_rendered]
    exact Sections.adds_appendAll p (parts.filterMap id) s q

end Fragment
end NetImage
