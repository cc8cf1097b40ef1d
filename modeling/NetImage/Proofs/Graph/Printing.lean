import NetImage.Proofs.Graph.Language
import NetImage.Proofs.Graph.Values

/-!
# NetImage.Proofs.Graph.Printing

A graph that was read is printed, and what is printed is read as the same graph, a declaration on each
line.

* `prints_build`: what a head makes of values is printed with that head and the texts of the values.
* `Completes.printed`: the words of a declaration, written anew.
* `printed_graph`: the declarations of a sequence of tokens, printed.
-/

namespace NetImage

/-- What `next` makes is printed with the head, the texts given and then a text for each field. -/
def Prints (head : Head) :
    (fields : List Field) → FromFields (Except CountError Decl) fields → List Bytes → Prop
  | [], made, texts => ∀ d, made = .ok d → d.head? = some head ∧ d.texts = texts
  | field :: fields, next, texts => ∀ v, Prints head fields (next v) (texts ++ [field.kind.write v])

theorem prints_build (head : Head) (line : Int) : Prints head head.fields (head.build line) [] := by
  cases head
  case const =>
    intro tensor type dims data d h
    obtain rfl := Head.const_eq_ok h
    exact ⟨rfl, rfl⟩
  all_goals
    simp only [Prints]
    intros
    rename_i h
    cases h
    exact ⟨rfl, rfl⟩

/-- The words of the fields when these are their texts. -/
def fieldWords (fields : List Field) (texts : List Bytes) : List Bytes :=
  fields.zipWith (fun f text => f.label ++ 0x3d :: text) texts

theorem Completes.printed {head : Head} {fields : List Field}
    {next : FromFields (Except CountError Decl) fields} {words texts : List Bytes} {d : Decl}
    (h : Completes d fields next words) (hprints : Prints head fields next texts)
    (hsolid : ∀ w ∈ words, Solid w) :
    ∃ values, d.head? = some head ∧ d.texts = texts ++ values ∧ fields.length = values.length ∧
      Completes d fields next (fieldWords fields values) ∧
      ∀ w ∈ fieldWords fields values, w ≠ [] ∧ Solid w := by
  induction fields generalizing words texts with
  | nil =>
    obtain ⟨-, hmade⟩ := h
    obtain ⟨hhead, htexts⟩ := hprints d hmade
    exact ⟨[], hhead, by rw [htexts, List.append_nil], rfl, ⟨rfl, hmade⟩, by simp [fieldWords]⟩
  | cons field fields ih =>
    obtain ⟨word, rest, value, v, rfl, ⟨rfl, hfirst⟩, hread, h⟩ := h
    rw [List.forall_mem_cons, solid_append (by decide), solid_cons (by decide)] at hsolid
    obtain ⟨⟨hlabel, hequals, hvalue⟩, hrest⟩ := hsolid
    obtain ⟨values, hhead, htexts, hlen, hd, hwords⟩ := ih h (hprints v) hrest
    refine ⟨field.kind.write v :: values, hhead, ?_, by simp [hlen], ?_, ?_⟩
    · rw [htexts, List.append_assoc, List.singleton_append]
    · exact ⟨_, _, _, v, rfl, ⟨rfl, hfirst⟩, FieldKind.read_write hread, hd⟩
    · refine List.forall_mem_cons.mpr ⟨⟨by simp, ?_⟩, hwords⟩
      rw [solid_append (by decide), solid_cons (by decide)]
      exact ⟨hlabel, hequals, FieldKind.solid_write hread hvalue⟩

theorem Decl.print?_eq_some {d : Decl} {head : Head} (hhead : d.head? = some head)
    (hlen : head.fields.length = d.texts.length) :
    d.print? =
      some (head.name ++ ((fieldWords head.fields d.texts).flatMap (0x20 :: ·) ++ [0x0a])) := by
  have hfields : (head.fields.zipWith (fun f text => ascii " " ++ f.label ++ ascii "=" ++ text)
      d.texts).flatten = (fieldWords head.fields d.texts).flatMap (0x20 :: ·) := by
    rw [List.flatMap_def, fieldWords, List.map_zipWith]
    congr 2
    funext f text
    show [0x20] ++ f.label ++ [0x3d] ++ text = _
    simp
  simp only [print?, hhead, bind, Option.bind, if_pos hlen, hfields]
  rw [List.append_assoc]
  rfl

theorem print?_cons {d : Decl} {ds : List Decl} {line rest : Bytes} (hline : d.print? = some line)
    (hrest : print? ds = some rest) : print? (d :: ds) = some (line ++ rest) := by
  obtain ⟨lines, hlines, rfl⟩ := Option.map_eq_some_iff.mp hrest
  simp [print?, List.mapM_cons, hline, hlines]

/-- The printed graph has the same declarations, one on each line from `line` on. -/
theorem printed_graph {ts : List Token} {ds : List Decl} (h : Graph ts ds)
    (hsolid : ∀ t ∈ ts, t.bytes ≠ [] ∧ Solid t.bytes) (line : Nat) :
    ∃ printed, print? ds = some printed ∧ (∀ b ∈ printed.getLast?, b = 0x0a) ∧
      Graph (tokensOf line (runes printed)) (ds.mapIdx fun i d => d.atLine ((line + i : Nat))) := by
  induction h generalizing line with
  | nil => exact ⟨[], rfl, by simp, .nil⟩
  | @cons head t fields ts d ds hhead hfields hline hrest ih =>
    rw [List.forall_mem_cons, List.forall_mem_append] at hsolid
    obtain ⟨⟨hne, hname⟩, hwords, hts⟩ := hsolid
    obtain ⟨rest, hprint, hlast, hgraph⟩ := ih hts (line + 1)
    have hwords' : ∀ w ∈ fields.map Token.bytes, Solid w := by
      intro w hw
      obtain ⟨f, hf, rfl⟩ := List.mem_map.mp hw
      exact (hwords f hf).2
    obtain ⟨texts, hdhead, htexts, hlen, hd, hws⟩ := hfields.printed (prints_build head t.line) hwords'
    rw [List.nil_append] at htexts
    subst htexts
    refine ⟨_, print?_cons (Decl.print?_eq_some hdhead hlen) hprint, ?_, ?_⟩
    · intro b hb
      rw [List.getLast?_append] at hb
      cases hend : rest.getLast? with
      | some c =>
        rw [hend, Option.some_or] at hb
        exact hlast b (hend.trans hb)
      | none => simpa [hend] using hb.symm
    · rw [hhead] at hne hname
      rw [List.append_assoc, List.append_assoc, List.singleton_append,
        tokensOf_line (List.forall_mem_cons.mpr ⟨⟨hne, hname⟩, hws⟩), List.mapIdx_cons]
      refine .cons rfl ?_ (Decl.line_atLine _ _) ?_
      · simpa [Function.comp_def] using hd.relined line
      · simpa [Nat.add_assoc, Nat.add_comm 1] using hgraph

/-- A text that ends its last line, if it has one, is read as what its tokens make. -/
theorem parse_of_ended {text : Bytes} (hlast : ∀ b ∈ text.getLast?, b = 0x0a) {ds : List Decl} :
    parse text = .ok ds ↔ Graph (tokens text) ds := by
  cases hend : text.getLast? with
  | some b =>
    obtain rfl := hlast b hend
    exact parse_of_getLast? hend
  | none =>
    obtain rfl := List.getLast?_eq_none_iff.mp hend
    constructor
    · intro h
      cases h
      exact .nil
    · intro h
      cases h
      rfl

theorem ended_of_parse {text : Bytes} {ds : List Decl} (h : parse text = .ok ds) :
    ∀ b ∈ text.getLast?, b = 0x0a := by
  intro b hb
  by_contra hne
  simp [parse, Option.mem_def.mp hb, hne] at h

/-- **What is printed is read again.** The declarations of every text that is accepted have a printed
form, and it is accepted with the same declarations, the first on line 1, the next on line 2 and so
on. -/
theorem parse_printed {text : Bytes} {decls : List Decl} (h : parse text = .ok decls) :
    ∃ printed, print? decls = some printed ∧
      parse printed = .ok (decls.mapIdx fun i d => d.atLine ((1 + i : Nat))) := by
  have hgraph := (parse_of_ended (ended_of_parse h)).mp h
  obtain ⟨printed, hprint, hlast, hprinted⟩ :=
    printed_graph hgraph (fun t ht => solid_of_mem_tokens ht) 1
  exact ⟨printed, hprint, (parse_of_ended hlast).mpr hprinted⟩

/-- Three declarations with a minus zero, no bias and a path that holds an equals sign, a byte that
cannot be read and a rune. -/
def scatteredText : Bytes :=
  ascii "\nConv Name=c:0/a FromTensor=x WeightsTensor=w\nBiasesTensor=- ToTensor=y Strides=2,-0\t"
    ++ ascii "AutoPad=VALID Const ToTensor=w Type=Float Dims=1x2 Data=1.50,-0e+1\n\n"
    ++ ascii "Const ToTensor=k Type=Int64 Dims=3 Data=@=k" ++ [0xff, 0xc3, 0xa9, 0x0a]

def scatteredDecls : List Decl :=
  [.op ⟨2, ascii "c:0/a", .conv (ascii "x") (ascii "w") none (ascii "y") [2, 0] .valid⟩,
   .const ⟨3, ascii "w", .float, [1, 2], .inline [ascii "1.50", ascii "-0e+1"]⟩,
   .const ⟨5, ascii "k", .int64, [3], .file (ascii "=k" ++ [0xff, 0xc3, 0xa9])⟩]

theorem scatteredText_printed :
    parse scatteredText = .ok scatteredDecls ∧
      ∃ printed, print? scatteredDecls = some printed ∧
        parse printed = .ok (scatteredDecls.mapIdx fun i d => d.atLine ((1 + i : Nat))) := by
  have h : parse scatteredText = .ok scatteredDecls := by decide +kernel
  exact ⟨h, parse_printed h⟩

end NetImage
