import UdfBridge.Proofs.Routine.Build
import UdfBridge.Proofs.Source.Heading
import UdfBridge.Proofs.Text.Margin

/-!
# The body of a routine

The definition of a routine is stripped of its decorators twice over: `FunctionDef.withoutDecorators`
goes by the lines that were noted when the definition was read, and `Routine.build` reads the source
once more. Both cut the source at the line of the header if there is a decorator before it, so they
agree (`FunctionDef.stripDecorators_source`), and the second reading never fails
(`build_body`).
-/

namespace UdfBridge.Source.FunctionDef

open Grammar

/-- Every decorator stands on a line. -/
theorem flatMap_linesOfDecorator_eq_nil {ns : List (Node Rule)} :
    ns.flatMap linesOfDecorator = [] ↔ ns = [] := by
  cases ns with
  | nil => simp
  | cons n ns => simp [linesOfDecorator]

/-- The noted lines give what a second reading gives. -/
theorem stripDecorators_source {text : String} {f : FunctionDef} (h : parse text = .ok f) :
    stripDecorators f.source = .ok f.withoutDecorators := by
  obtain ⟨d, -⟩ := exists_header_of_parse h
  obtain ⟨hsource, hline, hdecorators⟩ := ofLead_of_parse h d
  -- Lines are noted exactly if the lead has a decorator.
  have hnone : f.decoratorLines.isEmpty = true ↔ d.lead.topRules = [] := by
    rw [hdecorators, List.isEmpty_iff, flatMap_linesOfDecorator_eq_nil,
      ← d.lead.map_rule_nodes .origin, List.map_eq_nil_iff]
  have hcut : Text.fromLine f.defLine f.source.toList =
      Text.unfinishedLine d.lead.text ++ (d.header.text ++ d.body) :=
    calc Text.fromLine f.defLine f.source.toList
        = Text.fromLine (d.lead.text.count '\n' + 1) (d.lead.text ++ (d.header.text ++ d.body)) := by
          rw [hline, d.line_headerStart, hsource, ← d.text_eq]
      _ = Text.unfinishedLine d.lead.text ++ (d.header.text ++ d.body) := Text.fromLine_count _ _
  unfold withoutDecorators
  rw [hcut, hsource, stripDecorators_eq d]
  by_cases hnil : d.lead.topRules = []
  · rw [if_pos hnil, if_pos (hnone.mpr hnil)]
  · rw [if_neg hnil, if_neg (fun hempty => hnil (hnone.mp hempty))]

end UdfBridge.Source.FunctionDef

namespace UdfBridge.Routine

open Source (FunctionDef)

/-- A definition that was read has a source without margin, and so can be read once more. -/
theorem dedent_source {text : String} {f : FunctionDef} (h : FunctionDef.parse text = .ok f) :
    Text.dedent f.source = f.source := by
  obtain ⟨hsource, -⟩ := FunctionDef.parse_spec h
  rw [hsource, Text.dedent_dedent]

/-- **The three ways to the undecorated source agree.** The source of a definition has no margin, and
stripping it gives what the definition itself gives without its decorators. So for no types and
options a routine fails for its source, and its body is that text, with a line feed behind it exactly
if it does not end in one already. -/
theorem build_body (text : String) (f : FunctionDef) (h : FunctionDef.parse text = .ok f) :
    Text.dedent f.source = f.source ∧
      Source.stripDecorators (Text.dedent f.source) = .ok f.withoutDecorators ∧
      ∀ (inputs : List DataType) (output : DataType) (options : DeployOptions),
        (∀ cause, build f inputs output options ≠ .error (.source cause)) ∧
        ∀ r, build f inputs output options = .ok r →
          r.body = if f.withoutDecorators.toList.getLast? = some '\n' then f.withoutDecorators
            else f.withoutDecorators ++ "\n" := by
  have hstrip : Source.stripDecorators (Text.dedent f.source) = .ok f.withoutDecorators := by
    rw [dedent_source h]
    exact FunctionDef.stripDecorators_source h
  refine ⟨dedent_source h, hstrip, fun inputs output options => ⟨fun cause herror => ?_, ?_⟩⟩
  · -- A source at fault would be one that cannot be stripped.
    unfold build at herror
    cases hobstacle : obstacle? f inputs.length with
    | some e => simp [hobstacle] at herror
    | none =>
      -- The source is stripped, so what fails is the signature, and its error is of another kind.
      simp only [hobstacle, hstrip, bind_eq_error, mapError_eq_error] at herror
      rcases herror with ⟨_, -, heq⟩ | ⟨_, -, ⟨_, heq, -⟩ | ⟨_, -, heq⟩⟩
      · simp at heq
      · simp at heq
      · simp [pure, Except.pure] at heq
  · intro r hr
    obtain ⟨-, signature, body, -, hbody, rfl⟩ := build_eq_ok.mp hr
    obtain rfl := Except.ok.inj (hstrip.symm.trans hbody)
    rfl

/-- A definition behind a decorator of two lines, in a text with a margin and without a line feed at
its end. -/
def decoratedText : String := "\t@a(1,\n\t  2)\n \n\tdef f(x):\n\t  return x"

/-- The body of its routine is stripped, dedented and ended by a line feed. -/
theorem build_body_of_decorated : ∃ f r, FunctionDef.parse decoratedText = .ok f ∧
    Source.stripDecorators (Text.dedent f.source) = .ok f.withoutDecorators ∧
    build f [.int32] .int32 {} = .ok r ∧ r.body = f.withoutDecorators ++ "\n" ∧
    r.body = "def f(x):\n  return x\n" := by
  have hparse : FunctionDef.parse decoratedText = .ok
      { FunctionDef.blank "@a(1,\n  2)\n\ndef f(x):\n  return x" with
        name := "f", parameters := [⟨⟨"x", none, none⟩, .positionalOrKeyword⟩],
        decoratorLines := [1, 2], defLine := 4 } := by
    decide +kernel
  have hbuild : build
      { FunctionDef.blank "@a(1,\n  2)\n\ndef f(x):\n  return x" with
        name := "f", parameters := [⟨⟨"x", none, none⟩, .positionalOrKeyword⟩],
        decoratorLines := [1, 2], defLine := 4 } [.int32] .int32 {} = .ok
      { signature := ⟨"f", [⟨"x", .int32⟩], .int32, none⟩, replace := false, language := .plpython3u,
        body := "def f(x):\n  return x\n", call := "f(x)" } := by
    decide +kernel
  obtain ⟨-, hstrip, hroutine⟩ := build_body _ _ hparse
  have hbody := (hroutine [.int32] .int32 {}).2 _ hbuild
  rw [if_neg (by decide +kernel)] at hbody
  exact ⟨_, _, hparse, hstrip, hbuild, hbody, rfl⟩

end UdfBridge.Routine
