import UdfBridge.Proofs.Grammar.Gap
import UdfBridge.Proofs.Source.Heading

/-!
# The tree of a definition

Every rule lists nodes that are in their places in the text (`Grammar.WellPlaced`). The tree of a
definition also leaves nothing out: its nodes are decorators, the header, and the body that takes
all that is left, and what belongs to none of them are lines without code (`SourceTree`). The words
of `Layout` say which lines these are, and `mem_line_of_mem_language` that the grammar takes no
others.
-/

namespace UdfBridge.Source

open Computability
open Grammar
open Grammar.Pattern
open Text (Position IsSlice)

/-! ## Lines without code -/

namespace Layout

/-- A line feed, a carriage return, or a carriage return and a line feed. -/
def lineBreak : Language Char := {['\n'], ['\r'], ['\r', '\n']}

/-- A space, a tab, or a backslash at the end of a line with the line break. -/
def blank : Language Char := {[' '], ['\t']} + {['\\']} * lineBreak

/-- A number sign and what follows it on its line. -/
def comment : Language Char := {w | ∃ v, w = '#' :: v ∧ ∀ c ∈ v, c ∉ lineEnds}

/-- Blanks, then a comment or nothing, and a line break. -/
def line : Language Char := blank∗ * (comment + 1) * lineBreak

end Layout

/-- A given character is the only word of its language. -/
theorem language_chr (c : Char) : (chr c : Pattern Rule).language = {[c]} := by
  ext w
  show (∃ d, (d == c) = true ∧ w = [d]) ↔ w = [c]
  simp

/-- The words of a line break are the three that end lines. -/
theorem language_lineBreak : lineBreak.language = Layout.lineBreak := by
  have hpair : ({['\r']} * {['\n']} : Language Char) = {['\r', '\n']} := Set.image2_singleton
  show (chr '\n').language + ((chr '\r').language * (chr '\n').language + (chr '\r').language) = _
  rw [language_chr, language_chr, hpair, add_comm ({['\r', '\n']} : Language Char)]
  rfl

/-- The words of a blank within a line are those of the layout. -/
theorem language_inlineSpace : inlineSpace.language = Layout.blank := by
  have hone : (oneOf [' ', '\t'] : Pattern Rule).language = {[' '], ['\t']} := by
    ext w
    show (∃ c, [' ', '\t'].contains c = true ∧ w = [c]) ↔ w = [' '] ∨ w = ['\t']
    simp
  show (oneOf [' ', '\t']).language + (chr '\\').language * lineBreak.language = _
  rw [hone, language_chr, language_lineBreak]
  rfl

/-- A word of a comment is a comment of the layout. -/
theorem mem_comment_of_mem_language {w : List Char} (hw : w ∈ comment.language) :
    w ∈ Layout.comment := by
  obtain ⟨a, ha, b, hb, rfl⟩ := Language.mem_mul.mp hw
  rw [language_chr] at ha
  obtain rfl : a = ['#'] := ha
  obtain ⟨ws, rfl, hws⟩ := Language.mem_kstar.mp hb
  refine ⟨ws.flatten, rfl, fun c hc => ?_⟩
  obtain ⟨v, hv, hc⟩ := List.mem_flatten.mp hc
  obtain ⟨d, hd, rfl⟩ := hws v hv
  rw [List.mem_singleton.mp hc]
  simpa using hd

/-- The grammar takes nothing for a blank line that has more on it than blanks and a comment. -/
theorem mem_line_of_mem_language {w : List Char} (hw : w ∈ blankLine.language) :
    w ∈ Layout.line := by
  have hlanguage : blankLine.language =
      inlineSpace.language∗ * ((comment.language + 1) * lineBreak.language) := rfl
  rw [hlanguage, language_inlineSpace, language_lineBreak, ← mul_assoc] at hw
  obtain ⟨v, hv, e, he, rfl⟩ := Language.mem_mul.mp hw
  obtain ⟨b, hb, c, hc, rfl⟩ := Language.mem_mul.mp hv
  have hcomment : c ∈ Layout.comment + 1 := hc.imp_left mem_comment_of_mem_language
  exact Language.append_mem_mul (Language.append_mem_mul hb hcomment) he

/-- Between the decorators of a lead there are only lines without code. -/
theorem spaces_leadPattern : Spaces Layout.line leadPattern := by
  have hblanks : Spaces Layout.line (star blankLine) :=
    (spaces_of_mem_language topRules_blankLine fun _ => mem_line_of_mem_language).star
  exact hblanks.seq ((spaces_node _ _).seq hblanks).star

/-! ## The nodes of a definition -/

/-- The node is the tree of all of `text`, and its children account for everything in the text but
lines without code. -/
structure SourceTree (text : String) (n : Node Rule) : Prop where
  /-- The tree is that of a definition. -/
  rule : n.rule = .source
  /-- It starts where the text does. -/
  start : n.start.offset = 0
  /-- It ends where the text does. -/
  stop : n.stop.offset = text.utf8ByteSize
  /-- Decorators stand before the header; the body starts where the header ends, and goes on to the
  end of the text. -/
  parts : ∃ decorators header body last, n.children = decorators ++ [header, body, last] ∧
    (∀ m ∈ decorators, m.rule = .decorator) ∧ header.rule = .defHeader ∧ body.rule = .body ∧
      last.rule = .endOfInput ∧ header.stop = body.start ∧ body.stop.offset = text.utf8ByteSize
  /-- Before the first child, and between each child and the next one, there are only lines without
  code. -/
  gaps : ∀ g ∈ gaps n.start n.children, ∃ w, IsSlice text g.1 g.2 (.ofList w) ∧ w ∈ Layout.line∗

namespace Division

variable {s : List Char} (d : Division s)

/-- Only lines without code stand between the nodes of a tree. -/
theorem spaced_root : Spaced Layout.line d.root.inner := by
  have htail : Spaced Layout.line d.tail :=
    ((spaced_nil.node_cons _ _).node_cons _ _).node_cons _ _
  exact (spaces_leadPattern _ _ _ d.run_lead).append htail

/-- The tree ends where the text does. -/
theorem stop_root {text : String} (d : Division text.toList) :
    d.root.stop.offset = text.utf8ByteSize := by
  have hchars : d.root.chars = text.toList := d.chars_root.trans d.text_eq.symm
  rw [Node.stop, Position.offset_advance, hchars, String.ofList_toList]
  exact Nat.zero_add _

/-- The body ends where the text does. -/
theorem stop_body : (d.headerStart.advance d.header.text).advance d.body = d.root.stop := by
  rw [Node.stop, d.chars_root, Position.advance_append, Position.advance_append]
  rfl

/-- The tree of a division accounts for all of the text. -/
theorem sourceTree {text : String} (d : Division text.toList) : SourceTree text d.root := by
  refine ⟨rfl, rfl, d.stop_root, ⟨d.lead.nodes .origin,
    ⟨.defHeader, d.headerStart, d.header⟩,
    ⟨.body, d.headerStart.advance d.header.text, plainForest d.body⟩,
    ⟨.endOfInput, (d.headerStart.advance d.header.text).advance (plainForest d.body).text, .nil⟩,
    d.children_root, fun m hm => d.rule_of_mem_lead hm, rfl, rfl, rfl, rfl, ?_⟩, ?_⟩
  · rw [Node.stop, Node.chars, text_plainForest, d.stop_body, d.stop_root]
  · -- The tree covers all of the text, so its gaps are those of the text.
    intro g hg
    refine d.spaced_root.of_mem_gaps (a := []) (b := []) ?_ hg
    rw [List.nil_append, List.append_nil]
    exact d.text_eq.trans d.chars_root.symm

end Division

/-- **Trees in their text.** Whatever rule is asked for, of the nodes that it lists in a text, and
of all nodes inside them, each starts and ends at boundaries of characters and has the text between
them for its text; it lies inside of the node above it, and behind the nodes before it. A definition
is one tree that spans the text, in which the body follows the header without a gap and goes on to
the end, and all else that belongs to no child are lines without code. -/
theorem tree_wellPlaced {rule : Rule} {text : String} {ns : List (Node Rule)}
    (h : parse? rule text = some ns) :
    WellPlaced text ns ∧ (rule = .source → ∃ n, ns = [n] ∧ SourceTree text n) := by
  obtain ⟨⟨f, r⟩, hrun, rfl⟩ := Option.map_eq_some_iff.mp h
  refine ⟨wellPlaced_of_run hrun, ?_⟩
  rintro rfl
  obtain ⟨d, rfl⟩ := exists_division hrun
  exact ⟨d.root, rfl, d.sourceTree⟩

/-- A definition with characters of more than one byte, blank lines and comments before and between
its decorators, and continued lines in the second decorator's place and in the header. -/
def spacedLead : String :=
  "\t# é\r\n@d('ß', # )\n  2)\\\n\n \\\n# ü\n\r@e # x\n\\\r\nasync def naïve(a, *, b: \"ö\" = 1): pass\n"

/-- Its nodes leave gaps only before the first and before the second decorator. -/
theorem tree_wellPlaced_of_spacedLead : ∃ n, parse? .source spacedLead = some [n] ∧
    n.children.map (fun m => (m.rule, m.start.offset, m.stop.offset)) =
      [(.decorator, 7, 27), (.decorator, 36, 43), (.defHeader, 43, 82), (.body, 82, 88),
        (.endOfInput, 88, 88)] ∧
    WellPlaced spacedLead [n] ∧ SourceTree spacedLead n := by
  have hplaces : (parse? .source spacedLead).map (fun ns => (ns.flatMap Node.children).map
      fun m => (m.rule, m.start.offset, m.stop.offset)) =
        some [(.decorator, 7, 27), (.decorator, 36, 43), (.defHeader, 43, 82), (.body, 82, 88),
          (.endOfInput, 88, 88)] := by
    rw [spacedLead, parse?, String.toList_ofList]
    decide +kernel
  obtain ⟨ns, hparse, hplaces⟩ := Option.map_eq_some_iff.mp hplaces
  obtain ⟨hplaced, hsource⟩ := tree_wellPlaced hparse
  obtain ⟨n, rfl, htree⟩ := hsource rfl
  rw [List.flatMap_singleton] at hplaces
  exact ⟨n, hparse, hplaces, hplaced, htree⟩

end UdfBridge.Source
