import UdfBridge.Proofs.Source.Heading
import UdfBridge.Proofs.Source.SealedHeader

/-!
# The body is opaque

A definition whose text up to the body has no three equal quotes in a row may get any other body: it
is a definition again, with the same decorators and the same header in the same places. And if every
carriage return before the body is followed by a line feed, what is left without the decorators is
the header with that body (`body_opaque`).
-/

namespace UdfBridge.Source

open Grammar
open Grammar.Pattern
open Text (ReturnsPaired unfinishedLine)

/-- The matches of the pattern end with a colon. -/
def EndsInColon (p : Pattern Rule) : Prop :=
  ∀ s f r, p.run s = some (f, r) → [':'] <:+ f.text

/-- A sequence ends with a colon if its second part does. -/
theorem EndsInColon.seq {p q : Pattern Rule} (hq : EndsInColon q) : EndsInColon (seq p q) := by
  intro s f r h
  obtain ⟨f₁, r₁, f₂, -, h₂, rfl⟩ := run_seq.mp h
  rw [Forest.text_append]
  exact (hq _ _ _ h₂).trans (List.suffix_append _ _)

/-- A header ends with a colon. -/
theorem endsInColon_headerText : EndsInColon headerText := by
  have hcolon : EndsInColon (chr ':') := by
    intro s f r h
    obtain ⟨-, rfl⟩ := run_chr.mp h
    exact List.suffix_refl _
  exact hcolon.seq.seq.seq.seq.seq.seq.seq.seq.seq

namespace Division

variable {s : List Char} (d : Division s)

/-- What stands before the body is sealed, and so is the header, if no three quotes stand there:
both end with a colon. -/
theorem sealed (h : ∀ q ∈ quotes, ¬ [q, q, q] <:+: d.lead.text ++ d.header.text) :
    Sealed (d.lead.text ++ d.header.text) ∧ Sealed d.header.text := by
  have hcolon : [':'] <:+ d.header.text := by
    obtain ⟨g, hinner, heq⟩ := run_node.mp d.run_header
    obtain rfl : d.header = g := by simpa using heq
    exact (endsInColon_headerText.seq _ _ _ hinner)
  have hsealed : Sealed (d.lead.text ++ d.header.text) :=
    ⟨hcolon.trans (List.suffix_append _ _), h⟩
  refine ⟨hsealed, hsealed.of_append ?_⟩
  rintro hnil
  simp [hnil] at hcolon

/-- A text that is sealed up to its body is divided in the same way with any other body. -/
theorem exists_withBody (h : ∀ q ∈ quotes, ¬ [q, q, q] <:+: d.lead.text ++ d.header.text)
    {s' body : List Char} (hs' : s' = d.lead.text ++ d.header.text ++ body) :
    ∃ e : Division s', e.lead = d.lead ∧ e.header = d.header ∧ e.body = body := by
  subst hs'
  obtain ⟨hsealed, hheader⟩ := d.sealed h
  -- The lead stops where the header starts, which the header itself decides.
  have hopens : OpensHeader d.header.text :=
    opensHeader_of_defHeader (w := []) hheader d.run_header
  have hlead := keeps_leadPattern _ d.header.text d.body d.lead hsealed hopens
    (by rw [List.append_assoc, ← d.text_eq]; exact d.run_lead) body
  have hrun := keeps_defHeader (B := fun _ => True) d.header.text [] d.body _ hheader trivial
    d.run_header body
  exact ⟨⟨d.lead, d.header, body, hlead, hrun⟩, rfl, rfl, rfl⟩

end Division

/-- The decorators and the header of a definition. -/
def nodesBeforeBody (n : Node Rule) : List (Node Rule) :=
  n.children.filter fun m => m.rule = .decorator ∨ m.rule = .defHeader

namespace Division

variable {s : List Char} (d : Division s)

/-- The node of the body. -/
def bodyNode : Node Rule :=
  ⟨.body, d.headerStart.advance d.header.text, plainForest d.body⟩

/-- The node at the end of the text. -/
def endNode : Node Rule :=
  ⟨.endOfInput, (d.headerStart.advance d.header.text).advance (plainForest d.body).text, .nil⟩

/-- The text of the body node is the body. -/
theorem text_bodyNode : d.bodyNode.text = .ofList d.body := by
  rw [Node.text, Node.chars, bodyNode, text_plainForest]

/-- The nodes before the body are those of the lead and the header. -/
theorem nodesBeforeBody_eq : nodesBeforeBody d.root =
    d.lead.nodes .origin ++ [⟨.defHeader, d.headerStart, d.header⟩] := by
  have hlead : (d.lead.nodes .origin).filter
      (fun m => m.rule = .decorator ∨ m.rule = .defHeader) = d.lead.nodes .origin := by
    rw [List.filter_eq_self]
    intro n hn
    simp [d.rule_of_mem_lead hn]
  rw [nodesBeforeBody, d.children_root, List.filter_append, hlead]
  rfl

/-- Behind them stand the body and the end of the text. -/
theorem children_eq : d.root.children = nodesBeforeBody d.root ++ [d.bodyNode, d.endNode] := by
  rw [d.nodesBeforeBody_eq, d.children_root, List.append_assoc]
  rfl

end Division

/-- **Only the header decides, and the body is opaque.** A definition is split into what stands
before its header, the header, and its body. If there are no three equal quotes in a row before the
body, then with any other body it is a definition with the same decorators and header, and with that
body. If the carriage returns before the body are followed by line feeds too, the decorators are
what is stripped. -/
theorem body_opaque {text : String} {n : Node Rule} (h : root text = .ok n) :
    ∃ D H B : String, text = D ++ H ++ B ∧ D.toList = n.inner.textBefore .defHeader ∧
      textsOf .defHeader n = [H] ∧ textsOf .body n = [B] ∧
      ((∀ q ∈ quotes, ¬ [q, q, q] <:+: (D ++ H).toList) → ∀ B' : String,
        (∃ m body ending, root (D ++ H ++ B') = .ok m ∧
          m.children = nodesBeforeBody n ++ [body, ending] ∧ nodesBeforeBody m = nodesBeforeBody n ∧
          body.rule = .body ∧ body.text = B' ∧ ending.rule = .endOfInput) ∧
        (ReturnsPaired (D ++ H).toList → stripDecorators (D ++ H ++ B') =
          .ok (if textsOf .decorator n = [] then D ++ H ++ B' else H ++ B'))) := by
  obtain ⟨d, rfl⟩ := root_eq_ok_iff.mp h
  refine ⟨.ofList d.lead.text, .ofList d.header.text, .ofList d.body, ?_, ?_, d.textsOf_defHeader,
    d.textsOf_body, ?_⟩
  · rw [← String.toList_inj]
    simpa using d.text_eq
  · rw [d.textBefore_defHeader, String.toList_ofList]
  simp only [String.toList_append, String.toList_ofList]
  intro hquotes B'
  have htext : (String.ofList d.lead.text ++ String.ofList d.header.text ++ B').toList =
      d.lead.text ++ d.header.text ++ B'.toList := by simp
  obtain ⟨e, hlead, hheader, hbody⟩ := d.exists_withBody hquotes htext
  have hstart : e.headerStart = d.headerStart := by rw [Division.headerStart, hlead]; rfl
  -- The same lead and header stand in the same places.
  have hnodes : nodesBeforeBody e.root = nodesBeforeBody d.root := by
    rw [e.nodesBeforeBody_eq, d.nodesBeforeBody_eq, hlead, hheader, hstart]
  constructor
  · refine ⟨e.root, e.bodyNode, e.endNode, root_eq_ok_iff.mpr ⟨e, rfl⟩, ?_, hnodes, rfl, ?_, rfl⟩
    · rw [← hnodes, e.children_eq]
    · rw [e.text_bodyNode, hbody, String.ofList_toList]
  · -- What is cut off is the lead, if it has decorators.
    intro hreturns
    -- A carriage return at the end of the lead has its line feed in the header.
    have hline : unfinishedLine e.lead.text = [] := by
      refine unfinishedLine_of_returns e fun a ha => ?_
      rw [hlead] at ha
      rw [ha, List.append_assoc] at hreturns
      have hfeed := hreturns a d.header.text rfl
      rw [hheader, List.head?_append, hfeed]
      rfl
    rw [stripDecorators_eq e, hline, hlead, hheader, hbody]
    by_cases hnil : d.lead.topRules = []
    · rw [if_pos hnil, if_pos (d.textsOf_decorator_eq_nil_iff.mpr hnil)]
    · rw [if_neg hnil, if_neg (fun h => hnil (d.textsOf_decorator_eq_nil_iff.mp h))]
      simp [String.ofList_append]

/-- A decorator with quotes in strings and in a comment. -/
def quotedLead : String := "@a(\"\'\", [1]) # \"(\n\n"

/-- A header with a colon and a bracket in strings, and a quote in a comment. -/
def quotedHeader : String := "def f(x, # \'\n *, y=\"]:\") -> \'b:\':"

/-- A body with a decorator, a function and open quotes of its own. -/
def nestedBody : String := "\n @c\n def g(): \'\'\'\n"

/-- The definition may get this body for its own. -/
theorem body_opaque_of_nested : ∃ n m body ending,
    root (quotedLead ++ quotedHeader ++ " pass") = .ok n ∧
      root (quotedLead ++ quotedHeader ++ nestedBody) = .ok m ∧
      m.children = nodesBeforeBody n ++ [body, ending] ∧ body.text = nestedBody ∧
      stripDecorators (quotedLead ++ quotedHeader ++ nestedBody) =
        .ok (quotedHeader ++ nestedBody) := by
  have hroot := eq_ok_of_isSome (x := root (quotedLead ++ quotedHeader ++ " pass"))
    (by decide +kernel)
  generalize hn : (root (quotedLead ++ quotedHeader ++ " pass")).toOption.getD default = n at hroot
  obtain ⟨D, H, B, -, hD, hH, -, hopaque⟩ := body_opaque hroot
  have hlead : n.inner.textBefore .defHeader = quotedLead.toList := by
    rw [← hn]
    decide +kernel
  have hheader : textsOf .defHeader n = [quotedHeader] := by
    rw [← hn]
    decide +kernel
  have hdecorators : textsOf .decorator n ≠ [] := by
    rw [← hn]
    decide +kernel
  obtain rfl := String.toList_inj.mp (hD.trans hlead)
  obtain rfl := List.singleton_inj.mp (hH.symm.trans hheader)
  obtain ⟨⟨m, body, ending, hm, hchildren, -, -, hbody, -⟩, hstrip⟩ :=
    hopaque (by decide +kernel) nestedBody
  have hreturns : '\r' ∉ (quotedLead ++ quotedHeader).toList := by decide +kernel
  refine ⟨n, m, body, ending, hroot, hm, hchildren, hbody, ?_⟩
  rw [hstrip fun a b heq => absurd (by rw [heq]; simp) hreturns, if_neg hdecorators]

end UdfBridge.Source
