import UdfBridge.Proofs.Source.Heading
import UdfBridge.Proofs.Source.RemovalHeader

/-!
# The line of the word `def`

`FunctionDef.defLine` is the number of the line on which the header starts. The header may have
blanks before its word `def`, the word `async` among them, and a backslash at the end of a line joins
that line with the next one. So the word stands on the line `defLine` exactly if no such backslash
stands before it in the header (`defLine_eq_iff`).
-/

namespace UdfBridge.Source

open Grammar
open Grammar.Pattern

/-! ## The characters of blanks -/

/-- The characters of the blanks between the words of a header. -/
def headerBlanks : List Char := ' ' :: '\t' :: '\\' :: lineEnds

/-- The matches of the pattern are made of the characters `cs`. -/
def MadeOf (cs : List Char) (p : Pattern Rule) : Prop :=
  ∀ s f r, p.run s = some (f, r) → f.text ⊆ cs

section MadeOf

variable {cs : List Char} {p q : Pattern Rule}

/-- A sequence is made of the characters that both of its parts are made of. -/
theorem MadeOf.seq (hp : MadeOf cs p) (hq : MadeOf cs q) : MadeOf cs (seq p q) := by
  intro s f r h
  obtain ⟨f₁, r₁, f₂, h₁, h₂, rfl⟩ := run_seq.mp h
  rw [Forest.text_append]
  exact List.append_subset.mpr ⟨hp _ _ _ h₁, hq _ _ _ h₂⟩

/-- A choice is made of the characters that both of its patterns are made of. -/
theorem MadeOf.orElse (hp : MadeOf cs p) (hq : MadeOf cs q) : MadeOf cs (orElse p q) := by
  intro s f r h
  rcases run_orElse.mp h with h | ⟨-, h⟩
  · exact hp _ _ _ h
  · exact hq _ _ _ h

/-- A repetition is made of the characters that its matches are made of. -/
theorem MadeOf.star (hp : MadeOf cs p) : MadeOf cs (star p) := by
  intro s f r h
  refine run_star_induction (Q := fun _ f _ => f.text ⊆ cs) (fun _ => List.nil_subset _)
    (fun hrun _ ih => ?_) h
  rw [Forest.text_append]
  exact List.append_subset.mpr ⟨hp _ _ _ hrun, ih⟩

/-- A character is made of itself. -/
theorem madeOf_chr {c : Char} (hc : c ∈ cs) : MadeOf cs (chr c) := by
  intro s f r h
  obtain ⟨-, rfl⟩ := run_chr.mp h
  exact List.cons_subset.mpr ⟨hc, List.nil_subset _⟩

/-- One of some characters is made of these. -/
theorem madeOf_oneOf {cs' : List Char} (h : cs' ⊆ cs) : MadeOf cs (oneOf cs') := by
  intro s f r hrun
  obtain ⟨c, hc, -, rfl⟩ := run_one.mp hrun
  exact List.cons_subset.mpr ⟨h (List.contains_iff_mem.mp hc), List.nil_subset _⟩

/-- A line break is a blank of a header. -/
theorem madeOf_lineBreak : MadeOf headerBlanks lineBreak :=
  (madeOf_chr (by decide)).orElse
    (((madeOf_chr (by decide)).seq (madeOf_chr (by decide))).orElse (madeOf_chr (by decide)))

/-- A space, a tab or a continuation is a blank of a header. -/
theorem madeOf_inlineSpace : MadeOf headerBlanks inlineSpace :=
  (madeOf_oneOf (by decide)).orElse ((madeOf_chr (by decide)).seq madeOf_lineBreak)

/-- Spaces, tabs and continuations are blanks of a header. -/
theorem madeOf_inlineSpaces : MadeOf headerBlanks (plus inlineSpace) :=
  madeOf_inlineSpace.seq madeOf_inlineSpace.star

end MadeOf

/-! ## The word and its place -/

/-- The word `def` of the header of a text stands behind `lead`, which ends where the header starts,
and `opening`, the part of the header before the word: there are only blanks between that word and
the name of the function. -/
structure DefPlace (text : String) (lead opening : List Char) : Prop where
  /-- The word stands there in the text. -/
  word : lead ++ (opening ++ ['d', 'e', 'f']) <+: text.toList
  /-- It is the last word before the name in the header of the tree. -/
  tree : ∃ n blanks, root text = .ok n ∧ n.inner.textBefore .defHeader = lead ∧
    blanks ⊆ headerBlanks ∧ ∃ header ∈ n.children, header.rule = .defHeader ∧
      header.inner.textBefore .functionName = opening ++ (['d', 'e', 'f'] ++ blanks)

/-- Before its name a header has the word `def` and blanks behind it. -/
theorem exists_opening {s r : List Char} {header : Forest Rule}
    (h : defHeader.run s = some (.node .defHeader header .nil, r)) : ∃ opening blanks after,
      header.textBefore .functionName = opening ++ (['d', 'e', 'f'] ++ blanks) ∧
      header.text = opening ++ (['d', 'e', 'f'] ++ blanks) ++ after ∧ blanks ⊆ headerBlanks := by
  obtain ⟨g, hg, heq⟩ := run_node.mp h
  obtain rfl : header = g := by simpa using heq
  -- The parts of the header up to its name, in the order of its pattern.
  obtain ⟨f₁, r₁, g₁, h₁, hg₁, rfl⟩ := run_seq.mp hg
  obtain ⟨f₂, r₂, g₂, h₂, hg₂, rfl⟩ := run_seq.mp hg₁
  obtain ⟨f₃, r₃, g₃, h₃, hg₃, rfl⟩ := run_seq.mp hg₂
  obtain ⟨f₄, r₄, g₄, h₄, hg₄, rfl⟩ := run_seq.mp hg₃
  obtain ⟨f₅, r₅, g₅, hname, -, rfl⟩ := run_seq.mp hg₄
  obtain ⟨name, -, rfl⟩ := run_node.mp hname
  have hword : f₃.text = ['d', 'e', 'f'] := by
    rw [forest_of_word h₃]
    rfl
  -- None of the parts in front of the name has a node of the name's rule.
  have hbefore : Rule.functionName ∉ (f₁ ++ (f₂ ++ (f₃ ++ f₄))).topRules := by
    simp only [Forest.topRules_append, List.mem_append, not_or]
    exact ⟨fun hmem => absurd (topRules_run _ _ _ _ h₁ hmem) (by decide),
      fun hmem => absurd (topRules_run _ _ _ _ h₂ hmem) (by decide),
      fun hmem => absurd (topRules_run _ _ _ _ h₃ hmem) (by decide),
      fun hmem => absurd (topRules_run _ _ _ _ h₄ hmem) (by decide)⟩
  refine ⟨f₁.text ++ f₂.text, f₄.text, name.text ++ g₅.text, ?_, ?_, madeOf_inlineSpaces _ _ _ h₄⟩
  · have hsplit := Forest.textBefore_append_node hbefore name g₅
    simp only [Forest.append_assoc, Forest.text_append, hword] at hsplit
    simpa [Forest.append_assoc] using hsplit
  · simp [Forest.text, hword]

/-- The header of every definition has such a word. -/
theorem Division.exists_defPlace {text : String} (d : Division text.toList) :
    ∃ opening, DefPlace text d.lead.text opening := by
  obtain ⟨opening, blanks, after, hbefore, htext, hblanks⟩ := exists_opening d.run_header
  have hnode : (⟨.defHeader, d.headerStart, d.header⟩ : Node Rule) ∈ d.root.children := by
    have := List.mem_singleton_self (⟨.defHeader, d.headerStart, d.header⟩ : Node Rule)
    rw [← d.filter_defHeader] at this
    exact List.mem_of_mem_filter this
  refine ⟨opening, ?_, d.root, blanks, root_eq_ok_iff.mpr ⟨d, rfl⟩, d.textBefore_defHeader, hblanks,
    _, hnode, rfl, hbefore⟩
  refine ⟨blanks ++ (after ++ d.body), ?_⟩
  conv_rhs => rw [d.text_eq, htext]
  simp

/-- **The line of the word `def`.** The header of a definition has the word `def` before the name of
the function. The line of the definition counts the line feeds before the header, so the word stands
on it exactly if no line of the header ends before the word. -/
theorem defLine_eq_iff {text : String} {f : FunctionDef} (h : FunctionDef.parse text = .ok f) :
    (∃ lead opening, DefPlace f.source lead opening) ∧
      ∀ lead opening, DefPlace f.source lead opening →
        f.defLine + opening.count '\n' = (lead ++ opening).count '\n' + 1 ∧
        (f.defLine = (lead ++ opening).count '\n' + 1 ↔ '\n' ∉ opening) := by
  obtain ⟨hsource, ⟨d, hline⟩, -⟩ := FunctionDef.parse_spec h
  rw [hsource]
  refine ⟨⟨d.lead.text, d.exists_defPlace⟩, ?_⟩
  rintro lead opening ⟨-, n, -, hroot, hlead, -⟩
  obtain rfl : d.root = n := Except.ok.inj ((root_eq_ok_iff.mpr ⟨d, rfl⟩).symm.trans hroot)
  rw [d.textBefore_defHeader] at hlead
  rw [hline, hlead, List.count_append]
  refine ⟨by omega, ?_⟩
  rw [← List.count_eq_zero]
  omega

/-- A coroutine behind a decorator on two lines and a comment, indented as a whole. -/
def lowHeader : String := "  @a(1,\n   2)\n\n  # b\n  async\tdef f(): pass\n"

/-- Its word `def` stands on the line of the definition, behind four line feeds. -/
theorem defLine_eq_of_decorated : ∃ f, FunctionDef.parse lowHeader = .ok f ∧
    DefPlace f.source "@a(1,\n 2)\n\n# b\n".toList "async\t".toList ∧ f.defLine = 4 + 1 := by
  have hparse := eq_ok_of_isSome (x := FunctionDef.parse lowHeader) (by decide +kernel)
  have hsource : ((FunctionDef.parse lowHeader).toOption.getD default).source =
      "@a(1,\n 2)\n\n# b\nasync\tdef f(): pass\n" := by decide +kernel
  generalize (FunctionDef.parse lowHeader).toOption.getD default = f at hparse hsource
  have hroot : root f.source =
      .ok ((root "@a(1,\n 2)\n\n# b\nasync\tdef f(): pass\n").toOption.getD default) := by
    rw [hsource]
    exact eq_ok_of_isSome (by decide +kernel)
  have hplace : DefPlace f.source "@a(1,\n 2)\n\n# b\n".toList "async\t".toList := by
    refine ⟨?_, _, [' '], hroot, ?_⟩
    · rw [hsource]
      decide +kernel
    · decide +kernel
  have hdefLine := ((defLine_eq_iff hparse).2 _ _ hplace).2.mpr (by decide)
  exact ⟨f, hparse, hplace, hdefLine⟩

/-- A line of the header that ends before the word puts the word below the line of the
definition. -/
theorem defLine_ne_of_joinedLines : ¬ ∀ text f lead opening, '\r' ∉ text.toList →
    FunctionDef.parse text = .ok f → DefPlace f.source lead opening →
      f.defLine = (lead ++ opening).count '\n' + 1 := by
  intro h
  have hparse := eq_ok_of_isSome (x := FunctionDef.parse "async \\\ndef f(): pass") (by decide +kernel)
  have hsource : ((FunctionDef.parse "async \\\ndef f(): pass").toOption.getD default).source =
      "async \\\ndef f(): pass" := by decide +kernel
  have hline : ((FunctionDef.parse "async \\\ndef f(): pass").toOption.getD default).defLine = 1 := by
    decide +kernel
  generalize (FunctionDef.parse "async \\\ndef f(): pass").toOption.getD default = f
    at hparse hsource hline
  have hroot : root f.source = .ok ((root "async \\\ndef f(): pass").toOption.getD default) := by
    rw [hsource]
    exact eq_ok_of_isSome (by decide +kernel)
  have hplace : DefPlace f.source [] "async \\\n".toList := by
    refine ⟨?_, _, [' '], hroot, ?_⟩
    · rw [hsource]
      decide +kernel
    · decide +kernel
  have hdefLine := h _ f _ _ (by decide) hparse hplace
  rw [hline] at hdefLine
  exact absurd hdefLine (by decide)

end UdfBridge.Source
