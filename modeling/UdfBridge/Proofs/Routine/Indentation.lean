import UdfBridge.Proofs.Routine.Build
import UdfBridge.Proofs.Source.Heading
import UdfBridge.Proofs.Text.Margin

/-!
# The column of a definition

In the text of a routine the definition is followed by a line without indentation, so the definition
has to start in the first column. What is taken away of its source is the margin that all lines with
content have in common, comments, decorators and the insides of strings among them, and it is taken
away before the decorators are. So the header starts in the first column exactly if its own line is
indented by no more than all these lines (`header_unindented_iff`).
-/

namespace UdfBridge.Source

open Grammar
open Grammar.Pattern
open Text

/-- The first character that is none of an indentation ends no line. -/
def StartsWithContent (s : List Char) : Prop :=
  ∃ indent c rest, s = indent ++ c :: rest ∧ (∀ x ∈ indent, isIndent x = true) ∧
    isIndent c = false ∧ isLineEnd c = false

/-- A text that starts with a character of no indentation and no line end starts with content. -/
theorem startsWithContent_cons {c : Char} (hc : isIndent c = false ∧ isLineEnd c = false)
    (s : List Char) : StartsWithContent (c :: s) :=
  ⟨[], c, s, rfl, by simp, hc⟩

/-- What stands behind does not change whether a text starts with content. -/
theorem StartsWithContent.append {s : List Char} (h : StartsWithContent s) (t : List Char) :
    StartsWithContent (s ++ t) := by
  obtain ⟨indent, c, rest, rfl, hindent, hc⟩ := h
  exact ⟨indent, c, rest ++ t, by simp, hindent, hc⟩

/-- A text that starts with content starts with content behind an indentation too. -/
theorem StartsWithContent.indented {s a : List Char} (h : StartsWithContent s)
    (ha : ∀ x ∈ a, isIndent x = true) : StartsWithContent (a ++ s) := by
  obtain ⟨indent, c, rest, rfl, hindent, hc⟩ := h
  refine ⟨a ++ indent, c, rest, by simp, ?_, hc⟩
  exact List.forall_mem_append.mpr ⟨ha, hindent⟩

/-- A text that starts with content has a first line with content, also behind the start `a` of that
line; and what follows does not change how the line is indented. -/
theorem StartsWithContent.exists_line {a s : List Char} (h : StartsWithContent s) (ha : '\n' ∉ a)
    (t : List Char) : ∃ l ls, lines (a ++ s) = l :: ls ∧ isBlankLine l = false ∧
      indentOf (a ++ (s ++ t)) = indentOf l := by
  obtain ⟨indent, c, rest, rfl, hindent, hc, hend⟩ := h
  -- Up to the content no line ends.
  have hstart : '\n' ∉ a ++ indent := by
    rw [List.mem_append, not_or]
    refine ⟨ha, fun hmem => ?_⟩
    have := hindent _ hmem
    simp [isIndent] at this
  have hfeed : c ≠ '\n' := by
    rintro rfl
    simp [isLineEnd] at hend
  obtain ⟨b, ls, hlines⟩ := exists_lines_cons hstart hfeed rest
  -- The line has content up to `c` already, so its indentation ends there.
  have hcontent : ∀ u, isBlankLine (a ++ indent ++ c :: u) = false := by
    intro u
    simp [isBlankLine, hc, hend]
  refine ⟨a ++ indent ++ c :: b, ls, by simpa using hlines, hcontent b, ?_⟩
  have hindentOf : ∀ u, indentOf (a ++ indent ++ c :: u) = indentOf (a ++ indent ++ [c]) := by
    intro u
    have := indentOf_append (hcontent []) u
    simpa using this
  rw [hindentOf b, ← hindentOf (rest ++ t)]
  simp

/-- Blanks within a line are an indentation, or a backslash comes before the line ends. -/
theorem isIndent_or_startsWithContent {s r : List Char} {f : Forest Rule}
    (h : (star inlineSpace).run s = some (f, r)) :
    (∀ x ∈ f.text, isIndent x = true) ∨ StartsWithContent f.text := by
  have hone : ∀ s f r, inlineSpace.run s = some (f, r) →
      (∀ x ∈ f.text, isIndent x = true) ∨ StartsWithContent f.text := by
    intro s f r h
    rcases run_orElse.mp h with h | ⟨-, h⟩
    · left
      obtain ⟨c, hc, -, rfl⟩ := run_one.mp h
      simpa [Forest.text, isIndent] using hc
    · obtain ⟨f₁, r₁, f₂, hbackslash, -, rfl⟩ := run_seq.mp h
      obtain ⟨-, rfl⟩ := run_chr.mp hbackslash
      exact .inr (startsWithContent_cons (by decide) _)
  refine run_star_induction
    (Q := fun _ f _ => (∀ x ∈ f.text, isIndent x = true) ∨ StartsWithContent f.text)
    (fun _ => .inl fun _ hx => absurd hx List.not_mem_nil) (fun hrun _ ih => ?_) h
  rw [Forest.text_append]
  rcases hone _ _ _ hrun with hf | hf
  · exact ih.imp (fun hg => List.forall_mem_append.mpr ⟨hf, hg⟩) (·.indented hf)
  · exact .inr (hf.append _)

/-- The first line of a header has content. -/
theorem startsWithContent_header {s r : List Char} {header : Forest Rule}
    (h : defHeader.run s = some (.node .defHeader header .nil, r)) :
    StartsWithContent header.text := by
  obtain ⟨g, hg, heq⟩ := run_node.mp h
  obtain rfl : header = g := by simpa using heq
  obtain ⟨f₁, r₁, g₁, hblanks, hg₁, rfl⟩ := run_seq.mp hg
  obtain ⟨f₂, r₂, g₂, hasync, hg₂, rfl⟩ := run_seq.mp hg₁
  obtain ⟨f₃, r₃, g₃, hdef, hg₃, rfl⟩ := run_seq.mp hg₂
  -- Behind its blanks the header starts with a word.
  have hword : StartsWithContent (f₂ ++ (f₃ ++ g₃)).text := by
    rw [Forest.text_append]
    -- The word is `async` or, without it, `def`.
    rcases run_orElse.mp hasync with hasync | ⟨-, hnone⟩
    · obtain ⟨f, _, _, hkeyword, -, rfl⟩ := run_seq.mp hasync
      obtain ⟨f, hletters, rfl⟩ := run_node.mp hkeyword
      obtain ⟨_, _, _, hletter, -, rfl⟩ := run_seq.mp hletters
      obtain ⟨-, rfl⟩ := run_chr.mp hletter
      exact startsWithContent_cons (by decide) _
    · obtain ⟨rfl, rfl⟩ := run_empty.mp hnone
      obtain ⟨_, _, _, hletter, -, rfl⟩ := run_seq.mp hdef
      obtain ⟨-, rfl⟩ := run_chr.mp hletter
      exact startsWithContent_cons (by decide) _
  rw [Forest.text_append]
  rcases isIndent_or_startsWithContent hblanks with hindent | hcontent
  · exact hword.indented hindent
  · exact hcontent.append _

end UdfBridge.Source

namespace UdfBridge.Routine

open Source (FunctionDef)
open Text

/-- The line `n` of a text is indented by no more than what all lines with content are indented
by. -/
def LeastIndented (n : Nat) (s : List Char) : Prop :=
  ∀ l ∈ lines s, isBlankLine l = false → indentOf (fromLine n s) <+: indentOf l

/-- A line feed comes last, and only behind the text. -/
theorem toList_withFinalLineFeed (s : String) :
    (∃ u, (withFinalLineFeed s).toList = s.toList ++ u) ∧
      (withFinalLineFeed s).toList.getLast? = some '\n' := by
  unfold withFinalLineFeed
  split
  · exact ⟨⟨[], (List.append_nil _).symm⟩, ‹_›⟩
  · rw [String.toList_append]
    exact ⟨⟨_, rfl⟩, by simp⟩

/-- Whether a text gets a line feed is decided by its last part. -/
theorem withFinalLineFeed_append {s : String} {a t : List Char} (hs : s.toList = a ++ t)
    (ht : t ≠ []) :
    (withFinalLineFeed s).toList = a ++ (withFinalLineFeed (.ofList t)).toList := by
  unfold withFinalLineFeed
  rw [hs, String.toList_ofList, List.getLast?_append_of_ne_nil a ht]
  split
  · rw [hs, String.toList_ofList]
  · simp only [String.toList_append, hs, String.toList_ofList, List.append_assoc]

/-- **Where the definition of a routine starts.** The line of the body on which the header begins
has no indentation exactly if the header's line of the source is indented by no more than all lines
with content. Behind the body the line with the call starts in the first column. Before the header
on its line there is nothing, if carriage returns are followed by line feeds. -/
theorem header_unindented_iff (text : String) (f : FunctionDef) (h : FunctionDef.parse text = .ok f)
    (inputs : List DataType) (output : DataType) (options : DeployOptions) (r : Routine)
    (hr : build f inputs output options = .ok r) :
    ∃ n before, Source.root (dedent text) = .ok n ∧
      r.body.toList = before ++ (withFinalLineFeed (.ofList (Source.fromHeader n))).toList ∧
      unfinishedLine r.body.toList = [] ∧
      (indentOf (fromLine (before.count '\n' + 1) r.body.toList) = [] ↔
        LeastIndented f.defLine text.toList) ∧
      (ReturnsPaired f.source.toList → unfinishedLine before = []) := by
  obtain ⟨hsource, ⟨d, hline⟩, -⟩ := FunctionDef.parse_spec h
  obtain ⟨-, signature, body, -, hbody, rfl⟩ := build_eq_ok.mp hr
  rw [hsource, dedent_dedent, Source.stripDecorators_eq d] at hbody
  have hcontent := Source.startsWithContent_header d.run_header
  -- The body keeps all of the lead or the last line of it, so the header's line has one start.
  obtain ⟨before, htoList, hbefore⟩ : ∃ before, body.toList = before ++ (d.header.text ++ d.body) ∧
      unfinishedLine before = unfinishedLine d.lead.text := by
    rw [← Except.ok.inj hbody]
    split
    · exact ⟨d.lead.text, d.text_eq, rfl⟩
    · refine ⟨unfinishedLine d.lead.text, String.toList_ofList, ?_⟩
      exact unfinishedLine_of_not_mem (not_mem_unfinishedLine _)
  have hne : d.header.text ++ d.body ≠ [] := by
    obtain ⟨indent, c, rest, heq, -⟩ := hcontent
    simp [heq]
  refine ⟨d.root, before, Source.root_eq_ok_iff.mpr ⟨d, rfl⟩, ?_, ?_, ?_, ?_⟩
  · -- The body is split where the header starts.
    rw [d.fromHeader_root]
    exact withFinalLineFeed_append htoList hne
  · exact unfinishedLine_of_getLast? (toList_withFinalLineFeed body).2
  · -- The line of the header in the body has the indentation of the line in the dedented text.
    obtain ⟨⟨u, hu⟩, -⟩ := toList_withFinalLineFeed body
    obtain ⟨l, ls, hlines, hlcontent, hindent⟩ :=
      (hcontent.append d.body).exists_line (not_mem_unfinishedLine d.lead.text) u
    have hchars : dedentChars text.toList = d.lead.text ++ (d.header.text ++ d.body) := by
      rw [← d.text_eq]
      exact String.toList_ofList.symm
    have hsourceLines : lines (fromLine f.defLine (dedentChars text.toList)) = l :: ls := by
      rw [hline, hchars, fromLine_count, hlines]
    rw [hu, htoList, List.append_assoc, fromLine_count, hbefore, hindent, LeastIndented]
    rw [hline] at hsourceLines ⊢
    exact indentOf_dedent_eq_nil_iff hsourceLines hlcontent
  · intro hpaired
    rw [hsource] at hpaired
    rw [hbefore]
    exact Source.unfinishedLine_lead d hpaired

/-- The margin of a decorated definition is taken away as a whole. -/
theorem header_unindented_of_common_margin : ∃ f r before rest,
    FunctionDef.parse "  @a(1,\n    2)\n\n  def f(x):\n    return x" = .ok f ∧
      build f [.int32] .int32 {} = .ok r ∧ r.body.toList = before ++ rest ∧
      indentOf (fromLine (before.count '\n' + 1) r.body.toList) = [] := by
  have hparse : FunctionDef.parse "  @a(1,\n    2)\n\n  def f(x):\n    return x" = .ok
      { FunctionDef.blank "@a(1,\n  2)\n\ndef f(x):\n  return x" with
        name := "f", parameters := [⟨⟨"x", none, none⟩, .positionalOrKeyword⟩],
        decoratorLines := [1, 2], defLine := 4 } := by
    decide +kernel
  have hbuild : build
      { FunctionDef.blank "@a(1,\n  2)\n\ndef f(x):\n  return x" with
        name := "f", parameters := [⟨⟨"x", none, none⟩, .positionalOrKeyword⟩],
        decoratorLines := [1, 2], defLine := 4 } [.int32] .int32 {} = .ok
      { signature := ⟨"f", [⟨"x", .int32⟩], .int32, none⟩, replace := false, language := .plpython3u,
        body := "def f(x):\n  return x\n", call := "f(x)" } := by
    decide +kernel
  have hleast : LeastIndented 4 "  @a(1,\n    2)\n\n  def f(x):\n    return x".toList := by
    unfold LeastIndented
    decide +kernel
  obtain ⟨n, before, -, hbody, -, hiff, -⟩ := header_unindented_iff _ _ hparse _ _ _ _ hbuild
  exact ⟨_, _, before, _, hparse, hbuild, hbody, hiff.mpr hleast⟩

/-- A comment in the first column leaves no margin, and the header keeps its indentation. -/
theorem header_indented_above_comment : ∃ f n r,
    FunctionDef.parse "    def f():\n# note\n        return 1\n" = .ok f ∧
      Source.root (dedent "    def f():\n# note\n        return 1\n") = .ok n ∧
      build f [] .int32 {} = .ok r ∧
      r.body = withFinalLineFeed (.ofList (Source.fromHeader n)) ∧
      indentOf r.body.toList = [' ', ' ', ' ', ' '] := by
  refine ⟨{ FunctionDef.blank "    def f():\n# note\n        return 1\n" with name := "f" },
    (Source.root (dedent "    def f():\n# note\n        return 1\n")).toOption.getD default,
    { signature := ⟨"f", [], .int32, none⟩, replace := false, language := .plpython3u,
      body := "    def f():\n# note\n        return 1\n", call := "f()" }, ?_, ?_, ?_, ?_, ?_⟩
  · decide +kernel
  · exact Source.eq_ok_of_isSome (by decide +kernel)
  · decide +kernel
  · decide +kernel
  · decide +kernel

end UdfBridge.Routine
