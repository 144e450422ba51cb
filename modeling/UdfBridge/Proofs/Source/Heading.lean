import UdfBridge.Proofs.Answer
import UdfBridge.Proofs.Source.Undecorated

/-!
# What a definition is read from

The header of a definition names the function once and lists its parameters once. A `Heading` is a
partition of the header at these two nodes. What `FunctionDef.parse` gives is tied to the tree by
`parse_spec`: the source is the text without its margin, the line of the header counts the lines of
the lead, and the parameters are those that the items of the one list declare.
-/

namespace UdfBridge.Source

open Grammar
open Grammar.Pattern
open Text (Position)

/-- The parts of a header: the name of the function and the list of its parameters, with what stands
before, between and behind them. -/
structure Heading (header : Forest Rule) where
  /-- What stands before the name. -/
  before : Forest Rule
  /-- What makes up the name. -/
  name : Forest Rule
  /-- What stands between the name and the list. -/
  between : Forest Rule
  /-- What makes up the list. -/
  parameters : Forest Rule
  /-- What stands behind the list. -/
  after : Forest Rule
  /-- The parts make up the header. -/
  eq : header = before ++ .node .functionName name (between ++ .node .parameters parameters after)
  /-- Before the name stands at most the word that makes a coroutine. -/
  rules_before : before.topRules ⊆ [.asyncKeyword]
  /-- Nothing stands between the name and the list. -/
  rules_between : between.topRules = []
  /-- Behind the list stands at most the annotation of the result. -/
  rules_after : after.topRules ⊆ [.returnHint]

/-- A header is made of its parts. -/
theorem exists_heading {s r : List Char} {header : Forest Rule}
    (h : defHeader.run s = some (.node .defHeader header .nil, r)) : Nonempty (Heading header) := by
  obtain ⟨g, hg, heq⟩ := run_node.mp h
  obtain rfl : header = g := by simpa using heq
  -- The parts of the header in the order of its pattern.
  obtain ⟨f₁, r₁, g₁, h₁, hg₁, rfl⟩ := run_seq.mp hg
  obtain ⟨f₂, r₂, g₂, h₂, hg₂, rfl⟩ := run_seq.mp hg₁
  obtain ⟨f₃, r₃, g₃, h₃, hg₃, rfl⟩ := run_seq.mp hg₂
  obtain ⟨f₄, r₄, g₄, h₄, hg₄, rfl⟩ := run_seq.mp hg₃
  obtain ⟨f₅, r₅, g₅, hname, hg₅, rfl⟩ := run_seq.mp hg₄
  obtain ⟨f₆, r₆, g₆, h₆, hg₆, rfl⟩ := run_seq.mp hg₅
  obtain ⟨f₇, r₇, g₇, hparameters, hg₇, rfl⟩ := run_seq.mp hg₆
  obtain ⟨name, -, rfl⟩ := run_node.mp hname
  obtain ⟨parameters, -, rfl⟩ := run_node.mp hparameters
  refine ⟨⟨f₁ ++ (f₂ ++ (f₃ ++ f₄)), name, f₆, parameters, g₇, ?_, ?_, ?_, ?_⟩⟩
  · simp [Forest.append_assoc]
  · have e₁ := topRules_run _ _ _ _ h₁
    have e₂ := topRules_run _ _ _ _ h₂
    have e₃ := topRules_run _ _ _ _ h₃
    have e₄ := topRules_run _ _ _ _ h₄
    simp only [Forest.topRules_append, List.append_subset]
    exact ⟨List.Subset.trans e₁ (by decide), List.Subset.trans e₂ (by decide),
      List.Subset.trans e₃ (by decide), List.Subset.trans e₄ (by decide)⟩
  · exact List.subset_nil.mp (List.Subset.trans (topRules_run _ _ _ _ h₆) (by decide))
  · exact List.Subset.trans (topRules_run _ _ _ _ hg₇) (by decide)

/-- A forest without outermost nodes lists none. -/
theorem nodes_eq_nil {f : Forest Rule} (h : f.topRules = []) (p : Position) : f.nodes p = [] := by
  rw [← f.map_rule_nodes p, List.map_eq_nil_iff] at h
  exact h

/-- The nodes of a forest have the rules of its outermost nodes. -/
theorem rule_mem_topRules {f : Forest Rule} {p : Position} {n : Node Rule} (h : n ∈ f.nodes p) :
    n.rule ∈ f.topRules := by
  rw [← f.map_rule_nodes p]
  exact List.mem_map_of_mem h

/-- A forest without outermost nodes of a rule lists none of that rule. -/
theorem filter_rule_eq_nil {f : Forest Rule} {rule : Rule} (h : rule ∉ f.topRules) (p : Position) :
    (f.nodes p).filter (·.rule = rule) = [] := by
  rw [List.filter_eq_nil_iff]
  intro n hn hrule
  exact h (of_decide_eq_true hrule ▸ rule_mem_topRules hn)

namespace Heading

variable {header : Forest Rule} (H : Heading header)

/-- Where the list of parameters starts, in a header that starts at `p`. -/
def parametersStart (p : Position) : Position :=
  ((p.advance H.before.text).advance H.name.text).advance H.between.text

/-- The nodes of a header: the word that makes a coroutine, the name, the list of parameters, and
the annotation of the result. -/
theorem nodes_eq (p : Position) : header.nodes p =
    H.before.nodes p ++ ⟨.functionName, p.advance H.before.text, H.name⟩ ::
      ⟨.parameters, H.parametersStart p, H.parameters⟩ ::
      H.after.nodes ((H.parametersStart p).advance H.parameters.text) := by
  conv_lhs => rw [H.eq]
  rw [Forest.nodes_append, Forest.nodes, Forest.nodes_append, nodes_eq_nil H.rules_between,
    List.nil_append, Forest.nodes]
  rfl

end Heading

/-! ## The items of the list of parameters -/

/-- The nodes directly inside the nodes of a rule. -/
def inside (rule : Rule) (ns : List (Node Rule)) : List (Node Rule) :=
  (ns.filter (·.rule = rule)).flatMap Node.children

/-- The items in the parameter list of a definition. -/
def itemNodes (n : Node Rule) : List (Node Rule) :=
  inside .parameters (inside .defHeader n.children)

/-- The items in the parameter list of a text that is a definition. -/
def writtenItems (text : String) : Except ReadError (List Item) := do
  let n ← root text
  (itemNodes n).mapM Item.ofNode

namespace Division

variable {s : List Char} (d : Division s)

/-- Where the header starts. -/
def headerStart : Position := Position.origin.advance d.lead.text

/-- The header starts on the line behind the line feeds of the lead. -/
theorem line_headerStart : d.headerStart.line = d.lead.text.count '\n' + 1 := by
  rw [headerStart, Position.line_advance, Nat.add_comm]
  rfl

/-- The header is the only one. -/
theorem filter_defHeader : d.root.children.filter (·.rule = Rule.defHeader) =
    [⟨.defHeader, d.headerStart, d.header⟩] := by
  have hlead : Rule.defHeader ∉ d.lead.topRules := fun h =>
    absurd (topRules_lead d.run_lead _ h) (by decide)
  rw [children_root, List.filter_append, filter_rule_eq_nil hlead, List.nil_append]
  rfl

/-- What is inside the header of the tree are the nodes of the header. -/
theorem inside_defHeader : inside .defHeader d.root.children = d.header.nodes d.headerStart := by
  rw [inside, filter_defHeader]
  exact List.append_nil _

/-- The items stand in the one list of the header. -/
theorem itemNodes_root (H : Heading d.header) :
    itemNodes d.root = H.parameters.nodes (H.parametersStart d.headerStart) := by
  have hbefore : Rule.parameters ∉ H.before.topRules := fun h =>
    absurd (H.rules_before h) (by decide)
  have hafter : Rule.parameters ∉ H.after.topRules := fun h => absurd (H.rules_after h) (by decide)
  rw [itemNodes, inside_defHeader, inside, H.nodes_eq, List.filter_append,
    filter_rule_eq_nil hbefore, List.nil_append]
  simp only [List.filter_cons, reduceCtorEq, decide_false, decide_true, if_true,
    filter_rule_eq_nil hafter]
  exact List.append_nil _

end Division

/-! ## Reading -/

namespace FunctionDef

variable {d d' : FunctionDef} {n : Node Rule} {ns : List (Node Rule)}

/-- A node inside the header changes neither the source nor the lines. -/
theorem addHeaderNode_keeps (h : d.addHeaderNode n = .ok d') :
    d'.source = d.source ∧ d'.defLine = d.defLine ∧ d'.decoratorLines = d.decoratorLines := by
  unfold addHeaderNode at h
  split at h
  · obtain rfl := Except.ok.inj h
    exact ⟨rfl, rfl, rfl⟩
  · obtain rfl := Except.ok.inj h
    exact ⟨rfl, rfl, rfl⟩
  · obtain ⟨ps, -, hps⟩ := bind_eq_ok.mp h
    obtain rfl := Except.ok.inj hps
    exact ⟨rfl, rfl, rfl⟩
  · obtain rfl := Except.ok.inj h
    exact ⟨rfl, rfl, rfl⟩
  · simp at h

/-- Only the list of parameters changes the parameters. -/
theorem parameters_addHeaderNode (hn : n.rule ≠ .parameters) (h : d.addHeaderNode n = .ok d') :
    d'.parameters = d.parameters := by
  unfold addHeaderNode at h
  split at h
  · obtain rfl := Except.ok.inj h
    rfl
  · obtain rfl := Except.ok.inj h
    rfl
  · contradiction
  · obtain rfl := Except.ok.inj h
    rfl
  · simp at h

/-- The parameters of a header are those of its list. -/
theorem parameters_of_heading {header : Forest Rule} (H : Heading header) {p : Position}
    (h : (header.nodes p).foldlM addHeaderNode d = .ok d') :
    Parameter.ofNodes (H.parameters.nodes (H.parametersStart p)) = .ok d'.parameters := by
  rw [H.nodes_eq, List.foldlM_append] at h
  obtain ⟨d₁, -, h₁⟩ := bind_eq_ok.mp h
  rw [List.foldlM_cons] at h₁
  obtain ⟨d₂, -, h₂⟩ := bind_eq_ok.mp h₁
  rw [List.foldlM_cons] at h₂
  obtain ⟨d₃, hlist, h₃⟩ := bind_eq_ok.mp h₂
  -- What stands behind the list leaves the parameters as they are.
  have hafter : d'.parameters = d₃.parameters := by
    refine foldlM_keeps FunctionDef.parameters ?_ h₃
    intro b n hn b' hb
    refine parameters_addHeaderNode ?_ hb
    rw [List.mem_singleton.mp (H.rules_after (rule_mem_topRules hn))]
    decide
  obtain ⟨ps, hps, heq⟩ := bind_eq_ok.mp hlist
  obtain rfl := Except.ok.inj heq
  rw [hafter]
  exact hps

/-- Only the name of the function changes the name. -/
theorem name_addHeaderNode (hn : n.rule ≠ .functionName) (h : d.addHeaderNode n = .ok d') :
    d'.name = d.name := by
  unfold addHeaderNode at h
  split at h
  · obtain rfl := Except.ok.inj h
    rfl
  · contradiction
  · obtain ⟨ps, -, hps⟩ := bind_eq_ok.mp h
    obtain rfl := Except.ok.inj hps
    rfl
  · obtain rfl := Except.ok.inj h
    rfl
  · simp at h

/-- The name of a header is the text of its name. -/
theorem name_of_heading {header : Forest Rule} (H : Heading header) {p : Position}
    (h : (header.nodes p).foldlM addHeaderNode d = .ok d') : d'.name = .ofList H.name.text := by
  rw [H.nodes_eq, List.foldlM_append] at h
  obtain ⟨d₁, -, h₁⟩ := bind_eq_ok.mp h
  rw [List.foldlM_cons] at h₁
  obtain ⟨d₂, hname, h₂⟩ := bind_eq_ok.mp h₁
  have hkept : d'.name = d₂.name := by
    refine foldlM_keeps FunctionDef.name ?_ h₂
    intro b n hn b' hb
    refine name_addHeaderNode ?_ hb
    rcases List.mem_cons.mp hn with rfl | hn
    · simp
    · rw [List.mem_singleton.mp (H.rules_after (rule_mem_topRules hn))]
      decide
  rw [hkept, ← Except.ok.inj hname]
  rfl

/-- Decorators change nothing but the lines of the decorators. -/
theorem foldlM_decorators {ns : List (Node Rule)} (hns : ∀ n ∈ ns, n.rule = .decorator)
    (d : FunctionDef) : ns.foldlM addNode d =
      .ok { d with decoratorLines := d.decoratorLines ++ ns.flatMap linesOfDecorator } := by
  induction ns generalizing d with
  | nil => simp [pure, Except.pure]
  | cons n ns ih =>
    obtain ⟨hn, hns⟩ := List.forall_mem_cons.mp hns
    have hstep : d.addNode n =
        .ok { d with decoratorLines := d.decoratorLines ++ linesOfDecorator n } := by
      rw [addNode, hn]
    rw [List.foldlM_cons, hstep]
    show List.foldlM addNode _ ns = _
    rw [ih hns, List.append_assoc, List.flatMap_cons]

/-- What is known of a definition when its lead is read: the lines of its decorators and that of its
header. -/
def ofLead {source : String} (d : Division source.toList) : FunctionDef :=
  { blank source with
    decoratorLines := (d.lead.nodes .origin).flatMap linesOfDecorator
    defLine := d.headerStart.line }

/-- Reads a text as it is, with its margin. -/
def ofSource (source : String) : Except ReadError FunctionDef := do
  let n ← root source
  n.children.foldlM addNode (blank source)

/-- A text is read as its lead and then its header. -/
theorem ofSource_of_division {source : String} (d : Division source.toList) :
    ofSource source = (d.header.nodes d.headerStart).foldlM addHeaderNode (ofLead d) := by
  have hroot : ofSource source = d.root.children.foldlM addNode (blank source) := by
    show (do let n ← root _; n.children.foldlM addNode (blank _)) = _
    rw [root_eq_ok_iff.mpr ⟨d, rfl⟩]
    rfl
  have htail : ∀ f : FunctionDef, (d.tail.nodes d.headerStart).foldlM addNode f =
      (d.header.nodes d.headerStart).foldlM addHeaderNode
        { f with defLine := d.headerStart.line } := by
    -- Of the nodes from the header on, only the header changes the definition.
    intro f
    show (addNode f ⟨.defHeader, d.headerStart, d.header⟩ >>= _) = _
    show ((d.header.nodes d.headerStart).foldlM addHeaderNode _ >>= _) = _
    cases (d.header.nodes d.headerStart).foldlM addHeaderNode
      { f with defLine := d.headerStart.line } <;> rfl
  rw [hroot, d.children_root, List.foldlM_append,
    foldlM_decorators fun n hn => d.rule_of_mem_lead hn]
  exact htail _

/-- A text is read as its lead and then its header, without its margin. -/
theorem parse_of_division {text : String} (d : Division (Text.dedent text).toList) :
    parse text = (d.header.nodes d.headerStart).foldlM addHeaderNode (ofLead d) :=
  ofSource_of_division d

/-- A definition is read from the nodes of its header, once the lead is read: until then nothing is
known of it but the source and the line of the header. -/
theorem exists_header_of_parse {text : String} {f : FunctionDef} (h : parse text = .ok f) :
    ∃ (d : Division (Text.dedent text).toList) (start : FunctionDef),
      start.source = Text.dedent text ∧ start.defLine = d.headerStart.line ∧
        (d.header.nodes d.headerStart).foldlM addHeaderNode start = .ok f := by
  obtain ⟨n, hroot, -⟩ := bind_eq_ok.mp h
  obtain ⟨d, rfl⟩ := root_eq_ok_iff.mp hroot
  exact ⟨d, ofLead d, rfl, rfl, (parse_of_division d).symm.trans h⟩

/-- Reading the header keeps what is known from the lead. -/
theorem ofLead_of_ofSource {source : String} {f : FunctionDef} (h : ofSource source = .ok f)
    (d : Division source.toList) : f.source = source ∧ f.defLine = d.headerStart.line ∧
      f.decoratorLines = (d.lead.nodes .origin).flatMap linesOfDecorator := by
  have hkept : (f.source, f.defLine, f.decoratorLines) =
      ((ofLead d).source, (ofLead d).defLine, (ofLead d).decoratorLines) := by
    refine foldlM_keeps (fun b => (b.source, b.defLine, b.decoratorLines)) ?_
      ((ofSource_of_division d).symm.trans h)
    intro b n _ b' hb
    obtain ⟨hsource, hline, hdecorators⟩ := addHeaderNode_keeps hb
    rw [hsource, hline, hdecorators]
  exact ⟨congrArg Prod.fst hkept, congrArg (·.2.1) hkept, congrArg (·.2.2) hkept⟩

/-- The source of a definition, the line of its header and those of its decorators are known from
the lead alone. -/
theorem ofLead_of_parse {text : String} {f : FunctionDef} (h : parse text = .ok f)
    (d : Division (Text.dedent text).toList) : f.source = Text.dedent text ∧
      f.defLine = d.headerStart.line ∧
        f.decoratorLines = (d.lead.nodes .origin).flatMap linesOfDecorator :=
  ofLead_of_ofSource h d

/-- What is read from a text: its source is the text without the margin, its line is that of the
header, and its parameters are those of the written items. -/
theorem parse_spec {text : String} {f : FunctionDef} (h : parse text = .ok f) :
    f.source = Text.dedent text ∧
      (∃ d : Division (Text.dedent text).toList, f.defLine = d.lead.text.count '\n' + 1) ∧
      ∃ items, writtenItems (Text.dedent text) = .ok items ∧
        f.parameters = Parameter.ofItems items := by
  obtain ⟨d, start, -, -, hheader⟩ := exists_header_of_parse h
  obtain ⟨H⟩ := exists_heading d.run_header
  obtain ⟨hsource, hline, -⟩ := ofLead_of_parse h d
  refine ⟨hsource, ⟨d, hline.trans d.line_headerStart⟩, ?_⟩
  · obtain ⟨items, hitems, heq⟩ := map_eq_ok.mp (parameters_of_heading H hheader)
    refine ⟨items, bind_eq_ok.mpr ⟨d.root, root_eq_ok_iff.mpr ⟨d, rfl⟩, ?_⟩, heq.symm⟩
    rwa [d.itemNodes_root H]

end FunctionDef

end UdfBridge.Source
