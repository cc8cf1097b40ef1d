import NetImage.Source.Sections
import Mathlib.Tactic

/-!
# NetImage.Proofs.Source.Rendering

What fragments and sections hold. A fragment writes the same bytes behind any buffer, and whatever is
written into sections only adds to them.

* `Fragment.rendered`: the bytes of a fragment.
* `Fragment.toList_emit`: they are what is written.
* `Sections.headerText`, `Sections.sourceText`: what is joined.
* `Sections.joined_eq_indented`: where a section ends makes no difference to joining.
* `Sections.Adds`: a function writes these bytes behind each section.
-/

namespace NetImage
namespace Fragment

/-- The literal of a byte. -/
def hexLiteral (b : UInt8) : Bytes := 0x30 :: 0x78 :: hexDigits 2 b.toNat

/-- The body of a byte array from the `i`-th byte on. -/
def hexText : Nat → Bytes → Bytes
  | _, [] => []
  | i, b :: rest =>
    (if i % 16 = 0 then [] else [0x20]) ++ hexLiteral b
      ++ (if i % 16 = 15 ∨ rest.isEmpty then [0x2c, 0x0a] else [0x2c]) ++ hexText (i + 1) rest

/-- What a statement lacks. -/
def ending (statement : Bytes) : Bytes :=
  match statement.getLast? with
  | none => []
  | some last => terminator last

mutual

/-- The bytes of a fragment. -/
def rendered : Fragment → Bytes
  | .text s => s
  | .bytes data => hexText 0 data
  | .seq parts => renderedSeq parts
  | .stmts parts => renderedStmts parts

def renderedSeq : List Fragment → Bytes
  | [] => []
  | part :: parts => rendered part ++ renderedSeq parts

def renderedStmts : List Fragment → Bytes
  | [] => []
  | part :: parts => rendered part ++ ending (rendered part) ++ renderedStmts parts

end

theorem toList_emitBytes (i : Nat) (data : Bytes) (buffer : ByteArray) :
    (emitBytes i data buffer).data.toList = buffer.data.toList ++ hexText i data := by
  induction data generalizing i buffer with
  | nil => simp [emitBytes, hexText]
  | cons b rest ih =>
    rw [emitBytes, ih]
    simp only [toList_extend, hexText, hexLiteral, List.append_assoc]

theorem toList_terminate {old buffer : ByteArray} {t : Bytes}
    (h : buffer.data.toList = old.data.toList ++ t) :
    (terminate old.size buffer).data.toList = old.data.toList ++ (t ++ ending t) := by
  have hsize : buffer.size = old.size + t.length := by
    have := congrArg List.length h
    rwa [List.length_append, Array.length_toList, Array.length_toList] at this
  unfold terminate ending
  cases hlast : t.getLast? with
  | none =>
    obtain rfl := List.getLast?_eq_none_iff.mp hlast
    rw [if_pos (by simp [hsize]), h]
    rfl
  | some last =>
    have hpos : 0 < t.length := by
      cases t with
      | nil => cases hlast
      | cons b t => exact Nat.succ_pos _
    have hget : buffer.get! (buffer.size - 1) = last := by
      have hat : buffer.data.toList[buffer.size - 1]? = some last := by
        have hle : old.data.toList.length ≤ buffer.size - 1 := by
          rw [Array.length_toList]
          show old.size ≤ _
          omega
        rw [h, List.getElem?_append_right hle, ← hlast, List.getLast?_eq_getElem?]
        congr 1
        show buffer.size - 1 - old.size = t.length - 1
        omega
      rw [Array.getElem?_toList] at hat
      show buffer.data[buffer.size - 1]! = last
      rw [getElem!_def, hat]
    rw [if_neg (by omega), hget, toList_extend, h, List.append_assoc]

mutual

/-- A fragment is written behind what there is. -/
theorem toList_emit (f : Fragment) (buffer : ByteArray) :
    (f.emit buffer).data.toList = buffer.data.toList ++ f.rendered := by
  cases f with
  | text s => rw [emit, rendered, toList_extend]
  | bytes data => rw [emit, rendered, toList_emitBytes]
  | seq parts => rw [emit, rendered, toList_emitSeq]
  | stmts parts => rw [emit, rendered, toList_emitStmts]

theorem toList_emitSeq (parts : List Fragment) (buffer : ByteArray) :
    (emitSeq parts buffer).data.toList = buffer.data.toList ++ renderedSeq parts := by
  cases parts with
  | nil => rw [emitSeq, renderedSeq, List.append_nil]
  | cons part parts =>
    rw [emitSeq, toList_emitSeq parts, toList_emit part, renderedSeq, List.append_assoc]

theorem toList_emitStmts (parts : List Fragment) (buffer : ByteArray) :
    (emitStmts parts buffer).data.toList = buffer.data.toList ++ renderedStmts parts := by
  cases parts with
  | nil => rw [emitStmts, renderedStmts, List.append_nil]
  | cons part parts =>
    rw [emitStmts, toList_emitStmts parts, toList_terminate (toList_emit part buffer),
      renderedStmts, List.append_assoc]

end

end Fragment

namespace Sections

/-- What a section holds. -/
def text (s : Sections) (p : Part) : Bytes := (s.parts.get p).data.toList

/-- The function writes these bytes behind each section. -/
def Adds (f : Sections → Sections) (t : Part → Bytes) : Prop :=
  ∀ s p, (f s).text p = s.text p ++ t p

theorem get_part (parts : Vector ByteArray 21) (p : Part) :
    parts.get p = getElem parts p.val p.isLt := rfl

theorem toList_parts (s : Sections) : s.parts.toList = (List.finRange 21).map s.parts.get := by
  apply List.ext_getElem
  · simp
  · intro i h₁ h₂
    simp [get_part]

/-- What the sections of the header hold, one behind the other. -/
def headerText (s : Sections) : Bytes :=
  ((List.finRange 21).take Part.headerCount).flatMap s.text

/-- What the sections of the source hold, one behind the other. -/
def sourceText (s : Sections) : Bytes :=
  ((List.finRange 21).drop Part.headerCount).flatMap s.text

/-- A text with its lines indented. -/
def indented (text : Bytes) : ByteArray := (text.foldl Join.step ⟨0x0a, 0, .empty⟩).written

/-- Joining goes over the sections as if their text stood in one. -/
theorem joined_eq_indented (parts : List ByteArray) :
    joined parts = indented (parts.flatMap fun part => part.data.toList) := by
  rw [indented, List.foldl_flatMap]
  rfl

theorem header_eq_indented (s : Sections) : s.header = indented s.headerText := by
  rw [header, joined_eq_indented, toList_parts, ← List.map_take, List.flatMap_map]
  rfl

theorem source_eq_indented (s : Sections) : s.source = indented s.sourceText := by
  rw [source, joined_eq_indented, toList_parts, ← List.map_drop, List.flatMap_map]
  rfl

theorem text_empty (p : Part) : empty.text p = [] := by
  rw [text, get_part]
  simp [empty]

theorem adds_append (p : Part) (f : Fragment) :
    Adds (fun s => s.append p f) fun q => if q = p then f.rendered else [] := by
  intro s q
  show ((s.parts.set p (f.emit (s.parts.get p))).get q).data.toList = _
  by_cases hq : q = p
  · subst hq
    simp [Fragment.toList_emit, text, get_part]
  · have hne : ¬ p.val = q.val := fun h => hq (Fin.ext h.symm)
    simp [hq, hne, text, get_part]

theorem Adds.andThen {f g : Sections → Sections} {t u : Part → Bytes} (hf : Adds f t)
    (hg : Adds g u) : Adds (fun s => g (f s)) fun p => t p ++ u p := by
  intro s p
  rw [hg, hf, List.append_assoc]

theorem adds_foldl {α : Type} {f : Sections → α → Sections} {t : α → Part → Bytes}
    (h : ∀ a, Adds (fun s => f s a) (t a)) (as : List α) :
    Adds (fun s => as.foldl f s) fun p => as.flatMap fun a => t a p := by
  intro s p
  dsimp only
  induction as generalizing s with
  | nil => simp
  | cons a as ih =>
    rw [List.foldl_cons, ih, h, List.flatMap_cons, List.append_assoc]

theorem adds_appendAll (p : Part) (fs : List Fragment) :
    Adds (fun s => s.appendAll p fs) fun q => if q = p then fs.flatMap Fragment.rendered else [] := by
  intro s q
  refine (adds_foldl (fun f => adds_append p f) fs s q).trans ?_
  dsimp only
  split
  · rfl
  · simp

end Sections
end NetImage
