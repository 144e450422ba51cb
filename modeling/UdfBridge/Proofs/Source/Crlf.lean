import UdfBridge.Proofs.Answer
import UdfBridge.Proofs.Grammar.Nodes
import UdfBridge.Proofs.Source.LineEnding
import UdfBridge.Proofs.Source.Name
import UdfBridge.Proofs.Source.Undecorated

/-!
# Reading texts with other line endings

What is read of a text with a carriage return before every line feed is what is read of the text
without them: the numbers of lines are the same, names have no line ends, and the texts that a
definition keeps get the other line endings themselves (`parse_crlf`, `stripDecorators_crlf`). The
one exception is a definition with a string literal before the body that goes over the end of a line
in one pair of quotes: with the other line endings it is none (`crlf_agrees_iff`).
-/

namespace UdfBridge.Source

open Grammar
open Grammar.Pattern
open Text (Position crlf crlfText)

/-! ## Nodes -/

/-- The nodes whose texts are names have no line ends. -/
def NamesOnLine (rule : Rule) (f : Forest Rule) : Prop :=
  rule = .identifier ∨ rule = .functionName → '\n' ∉ f.text

/-- Names are made of the characters of identifiers. -/
theorem namesOnLine_source {s r : List Char} {f : Forest Rule} (h : source.run s = some (f, r)) :
    f.Each NamesOnLine :=
  (named_source h).mono fun _ _ hnamed hrule =>
    not_mem_of_isName (by decide) (by decide) (hnamed.text hrule)

/-- A node of the text with other line endings stands for a node of the text. -/
structure SameNode (n n' : Node Rule) : Prop where
  rule : n'.rule = n.rule
  line : n'.start.line = n.start.line
  inner : n'.inner = n.inner.crlf
  names : NamesOnLine n.rule n.inner
  each : n.inner.Each NamesOnLine

/-- The nodes of a match with other line endings stand for those of the match, from positions on the
same line. -/
theorem forall₂_nodes_crlf {f : Forest Rule} (hf : f.Each NamesOnLine) {p p' : Position}
    (hp : p'.line = p.line) : List.Forall₂ SameNode (f.nodes p) (f.crlf.nodes p') := by
  induction f generalizing p p' with
  | nil => exact .nil
  | char c next ih =>
    rw [Forest.crlf]
    split
    · rename_i hc
      refine ih hf ?_
      subst hc
      simp [Position.next, hp]
    · rename_i hc
      refine ih hf ?_
      simp [Position.next, hc, hp]
  | node rule inner next _ ih =>
    obtain ⟨hself, hinner, hnext⟩ := hf
    refine .cons ⟨rfl, hp, rfl, hself, hinner⟩ (ih hnext ?_)
    rw [Position.line_advance, Position.line_advance, hp, Forest.text_crlf, Text.count_crlf]

namespace SameNode

variable {n n' : Node Rule}

/-- A node that stands for another one has its characters, with other line endings. -/
theorem chars (h : SameNode n n') : n'.chars = crlf n.chars := by
  rw [Node.chars, h.inner, Forest.text_crlf]
  rfl

/-- A node that stands for another one has its text, with other line endings. -/
theorem text (h : SameNode n n') : n'.text = crlfText n.text := by
  rw [Node.text, h.chars, crlfText, Node.text, String.toList_ofList]

/-- A name stays as it is. -/
theorem text_of_name (h : SameNode n n') (hrule : n.rule = .identifier ∨ n.rule = .functionName) :
    n'.text = n.text := by
  have hline : '\n' ∉ n.chars := h.names hrule
  rw [Node.text, h.chars, Text.crlf_of_not_mem hline]
  rfl

/-- The children of a node that stands for another one stand for its children. -/
theorem children (h : SameNode n n') : List.Forall₂ SameNode n.children n'.children := by
  unfold Node.children
  rw [h.inner]
  exact forall₂_nodes_crlf h.each h.line

end SameNode

/-! ## Definitions -/

/-- The parameter with other line endings in the texts that it keeps. -/
def WrittenParameter.crlf (p : WrittenParameter) : WrittenParameter :=
  { p with hint? := p.hint?.map crlfText, default? := p.default?.map crlfText }

/-- The item with other line endings in the texts that it keeps. -/
def Item.crlf : Item → Item
  | slash => slash
  | star => star
  | plain p => plain p.crlf
  | starred p => starred p.crlf
  | doubleStarred p => doubleStarred p.crlf

/-- The parameter with other line endings in the texts that it keeps. -/
def Parameter.crlf (p : Parameter) : Parameter :=
  { p.toWrittenParameter.crlf with kind := p.kind }

/-- The definition with other line endings in the texts that it keeps. -/
def FunctionDef.crlf (d : FunctionDef) : FunctionDef :=
  { d with parameters := d.parameters.map Parameter.crlf, source := crlfText d.source }

section Reading

variable {n n' : Node Rule} {ns ns' : List (Node Rule)}

/-- What a node says of a parameter is kept with other line endings. -/
theorem WrittenParameter.addNode_crlf (p : WrittenParameter) (n n' : Node Rule)
    (h : SameNode n n') : p.crlf.addNode n' = crlf <$> p.addNode n := by
  unfold addNode
  rw [h.rule]
  split
  · rename_i hrule
    rw [h.text_of_name (.inl hrule)]
    rfl
  · rw [h.text, Text.trim_crlfText]
    rfl
  · rw [h.text, Text.trim_crlfText]
    rfl
  · rfl

/-- An item is read from a node with other line endings as before. -/
theorem Item.ofNode_crlf (n n' : Node Rule) (h : SameNode n n') :
    ofNode n' = crlf <$> ofNode n := by
  have hnodes : WrittenParameter.ofNodes n'.children =
      WrittenParameter.crlf <$> WrittenParameter.ofNodes n.children :=
    foldlM_of_forall₂ WrittenParameter.addNode_crlf h.children ⟨"", none, none⟩
  unfold ofNode
  rw [h.rule, hnodes]
  split
  · rfl
  · rfl
  · cases WrittenParameter.ofNodes n.children <;> rfl
  · cases WrittenParameter.ofNodes n.children <;> rfl
  · cases WrittenParameter.ofNodes n.children <;> rfl
  · rfl

/-- The kinds of parameters do not depend on what they keep. -/
theorem Parameter.ofItemsAfter_crlf (kind : ParameterKind) (earlier : List Parameter)
    (items : List Item) : ofItemsAfter kind (earlier.map crlf) (items.map Item.crlf) =
      (ofItemsAfter kind earlier items).map crlf := by
  induction items generalizing kind earlier with
  | nil => rfl
  | cons i items ih =>
    cases i with
    | slash =>
      rw [List.map_cons, Item.crlf, ofItemsAfter, ofItemsAfter, ← ih, List.map_map, List.map_map]
      rfl
    | star => exact ih .keywordOnly earlier
    | plain p =>
      rw [List.map_cons, Item.crlf, ofItemsAfter, ofItemsAfter, ← ih, List.map_append]
      rfl
    | starred p =>
      rw [List.map_cons, Item.crlf, ofItemsAfter, ofItemsAfter, ← ih, List.map_append]
      rfl
    | doubleStarred p =>
      rw [List.map_cons, Item.crlf, ofItemsAfter, ofItemsAfter, ← ih, List.map_append]
      rfl

/-- A list of parameters is read from nodes with other line endings as before. -/
theorem Parameter.ofNodes_crlf (h : List.Forall₂ SameNode ns ns') :
    ofNodes ns' = List.map crlf <$> ofNodes ns := by
  unfold ofNodes
  rw [mapM_of_forall₂ Item.ofNode_crlf h]
  cases ns.mapM Item.ofNode with
  | error e => rfl
  | ok items => exact congrArg Except.ok (ofItemsAfter_crlf .positionalOrKeyword [] items)

/-- A decorator takes up the same lines with other line endings. -/
theorem linesOfDecorator_crlf (h : SameNode n n') : linesOfDecorator n' = linesOfDecorator n := by
  unfold linesOfDecorator
  rw [h.line, h.chars, Text.trimEndChars_crlf, Text.count_crlf]

/-- What a node of the header says of a definition is kept with other line endings. -/
theorem FunctionDef.addHeaderNode_crlf (d : FunctionDef) (n n' : Node Rule) (h : SameNode n n') :
    d.crlf.addHeaderNode n' = crlf <$> d.addHeaderNode n := by
  unfold addHeaderNode
  rw [h.rule]
  split
  · rfl
  · rename_i hrule
    rw [h.text_of_name (.inr hrule)]
    rfl
  · rw [Parameter.ofNodes_crlf h.children]
    cases Parameter.ofNodes n.children <;> rfl
  · rfl
  · rfl

/-- What a node says of a definition is kept with other line endings. -/
theorem FunctionDef.addNode_crlf (d : FunctionDef) (n n' : Node Rule) (h : SameNode n n') :
    d.crlf.addNode n' = crlf <$> d.addNode n := by
  unfold addNode
  rw [h.rule]
  split
  · rw [linesOfDecorator_crlf h]
    rfl
  · rw [h.line]
    exact foldlM_of_forall₂ addHeaderNode_crlf h.children { d with defLine := n.start.line }
  · rfl
  · rfl
  · rfl

end Reading

/-! ## Texts -/

/-- Other line endings change no outermost node. -/
theorem topRules_crlf (f : Forest Rule) : f.crlf.topRules = f.topRules := by
  induction f with
  | nil => rfl
  | char c next ih =>
    rw [Forest.crlf]
    split <;> exact ih
  | node rule inner next _ ih => rw [Forest.crlf, Forest.topRules, ih, Forest.topRules]

/-- A text without nodes is one with other line endings too. -/
theorem plainForest_crlf (s : List Char) : plainForest (crlf s) = (plainForest s).crlf := by
  induction s with
  | nil => rfl
  | cons c s ih =>
    rw [plainForest, Forest.crlf]
    split
    · rename_i hc
      rw [hc, Text.crlf_feed, plainForest, plainForest, ih]
    · rename_i hc
      rw [Text.crlf_cons hc, plainForest, ih]

/-- No string literal before the body goes over the end of a line in one pair of quotes. -/
def KeepsLines (text : String) : Prop :=
  ∀ (d : Division text.toList) (ls : List (List Char)), Scan text.toList d.body ls →
    ¬ HasContinued ls

/-- A text without a division is none of the grammar. -/
theorem root_of_isEmpty {text : String} (h : IsEmpty (Division text.toList)) :
    root text = .error .noMatch := by
  have hnone : source.run text.toList = none := by
    by_contra hne
    obtain ⟨⟨f, r⟩, hrun⟩ := Option.ne_none_iff_exists'.mp hne
    exact h.false (exists_division hrun).choose
  unfold root parse? Rule.pattern
  rw [hnone]
  rfl

/-- A text is divided with other line endings as it was, unless a literal before the body goes over
the end of a line in one pair of quotes. Then it is not divided at all. -/
theorem division_crlfText {text : String} (h : '\r' ∉ text.toList) (d : Division text.toList) :
    ∃ ls, Scan text.toList d.body ls ∧
      ((¬ HasContinued ls ∧ ∃ e : Division (crlfText text).toList,
          e.lead = d.lead.crlf ∧ e.header = d.header.crlf ∧ e.body = crlf d.body) ∨
        (HasContinued ls ∧ IsEmpty (Division (crlfText text).toList))) := by
  rw [Text.toList_crlfText]
  exact division_crlf h d

/-- A definition with a literal that goes over the end of a line is none with other line endings. -/
theorem root_crlf_of_not_keepsLines {text : String} (h : '\r' ∉ text.toList)
    (hlines : ¬ KeepsLines text) : root (crlfText text) = .error .noMatch := by
  unfold KeepsLines at hlines
  push Not at hlines
  obtain ⟨d, ls, hscan, hbreak⟩ := hlines
  obtain ⟨ls', hscan', ⟨hnot, -⟩ | ⟨-, hempty⟩⟩ := division_crlfText h d
  · exact absurd (hscan.unique hscan' ▸ hbreak) hnot
  · exact root_of_isEmpty hempty

/-- The root of one text stands for the root of the other one, or both texts are no definitions. -/
theorem root_crlf {text : String} (h : '\r' ∉ text.toList) (hlines : KeepsLines text) :
    (∃ (d : Division text.toList) (e : Division (crlfText text).toList),
        SameNode d.root e.root ∧ e.lead = d.lead.crlf ∧ e.header = d.header.crlf ∧
          e.body = crlf d.body) ∨
      (root text = .error .noMatch ∧ root (crlfText text) = .error .noMatch) := by
  by_cases hd : Nonempty (Division text.toList)
  · left
    obtain ⟨d⟩ := hd
    obtain ⟨ls, hscan, ⟨-, e, hlead, hheader, hbody⟩ | ⟨hbreak, -⟩⟩ := division_crlfText h d
    · -- The tree of the one division is that of the other, with other line endings.
      refine ⟨d, e, ⟨rfl, rfl, ?_, ?_, ?_⟩, hlead, hheader, hbody⟩
      · show e.lead ++ e.tail = (d.lead ++ d.tail).crlf
        rw [Forest.crlf_append, Division.tail, Division.tail, hlead, hheader, hbody,
          plainForest_crlf]
        rfl
      · rintro (hrule | hrule) <;> simp [Division.root] at hrule
      · exact (namesOnLine_source d.run_source).2.1
    · exact absurd hbreak (hlines d ls hscan)
  · right
    have hempty : IsEmpty (Division text.toList) := ⟨fun d => hd ⟨d⟩⟩
    have hempty' : IsEmpty (Division (crlfText text).toList) := by
      rw [Text.toList_crlfText]
      exact isEmpty_division_crlf h hempty
    exact ⟨root_of_isEmpty hempty, root_of_isEmpty hempty'⟩

/-- A text is parsed without its margin, as a tree whose nodes are read in order. -/
theorem parse_eq (text : String) : FunctionDef.parse text = (root (Text.dedent text)).bind fun n =>
    n.children.foldlM FunctionDef.addNode (FunctionDef.blank (Text.dedent text)) := rfl

/-- What is read of a text with other line endings. -/
theorem parse_crlf {text : String} (h : '\r' ∉ text.toList)
    (hlines : KeepsLines (Text.dedent text)) :
    FunctionDef.parse (crlfText text) = FunctionDef.crlf <$> FunctionDef.parse text := by
  have hdedent : '\r' ∉ (Text.dedent text).toList := fun hmem => h (Text.mem_of_mem_dedent hmem)
  rw [parse_eq, parse_eq, Text.dedent_crlfText]
  rcases root_crlf hdedent hlines with ⟨d, e, hroot, -⟩ | ⟨hnone, hnone'⟩
  · rw [root_eq_ok_iff.mpr ⟨d, rfl⟩, root_eq_ok_iff.mpr ⟨e, rfl⟩]
    exact foldlM_of_forall₂ FunctionDef.addNode_crlf hroot.children
      (FunctionDef.blank (Text.dedent text))
  · rw [hnone, hnone']
    rfl

/-- What is left of a text with other line endings. -/
theorem stripDecorators_crlf {text : String} (h : '\r' ∉ text.toList) (hlines : KeepsLines text) :
    stripDecorators (crlfText text) = crlfText <$> stripDecorators text := by
  rcases root_crlf h hlines with ⟨d, e, -, hlead, hheader, hbody⟩ | ⟨hnone, hnone'⟩
  · rw [stripDecorators_eq d, stripDecorators_eq e, hlead, hheader, hbody, topRules_crlf]
    by_cases hnil : d.lead.topRules = []
    · rw [if_pos hnil, if_pos hnil]
      rfl
    · rw [if_neg hnil, if_neg hnil, Forest.text_crlf, Forest.text_crlf, Text.unfinishedLine_crlf,
        ← Text.crlf_append, ← Text.crlf_append]
      refine congrArg (fun s => Except.ok (String.ofList (crlf s))) ?_
      exact String.toList_ofList.symm
  · unfold stripDecorators
    rw [hnone, hnone']
    rfl

/-- **When line endings do not matter.** A text and the text with a carriage return before every
line feed are read alike, unless the first one is a definition with a string literal before its body
that goes over the end of a line in one pair of quotes; then the second one is refused. For `parse`
this is about the text without its margin. -/
theorem crlf_agrees_iff (text : String) (h : '\r' ∉ text.toList) :
    ((∃ g, FunctionDef.parse (crlfText text) = .ok g) ↔
      (∃ f, FunctionDef.parse text = .ok f) ∧ KeepsLines (Text.dedent text)) ∧
    (∀ f g, FunctionDef.parse text = .ok f → FunctionDef.parse (crlfText text) = .ok g →
      g.name = f.name ∧ g.isAsync = f.isAsync ∧
        g.parameters.map (·.name) = f.parameters.map (·.name) ∧
        g.parameters.map (·.kind) = f.parameters.map (·.kind) ∧
        g.decoratorLines = f.decoratorLines ∧ g.defLine = f.defLine) ∧
    ((∃ t, stripDecorators (crlfText text) = .ok t) ↔
      (∃ t, stripDecorators text = .ok t) ∧ KeepsLines text) ∧
    (∀ t t', stripDecorators text = .ok t → stripDecorators (crlfText text) = .ok t' →
      t' = crlfText t) := by
  have hdedent : '\r' ∉ (Text.dedent text).toList := fun hmem => h (Text.mem_of_mem_dedent hmem)
  -- A text that is parsed with other line endings has no continued literal, or it would not be
  -- divided.
  have hparse : ∀ g, FunctionDef.parse (crlfText text) = .ok g → KeepsLines (Text.dedent text) := by
    intro g hg
    by_contra hlines
    rw [parse_eq, Text.dedent_crlfText, root_crlf_of_not_keepsLines hdedent hlines] at hg
    simp [Except.bind] at hg
  have hstrip : ∀ t, stripDecorators (crlfText text) = .ok t → KeepsLines text := by
    intro t ht
    by_contra hlines
    unfold stripDecorators at ht
    rw [root_crlf_of_not_keepsLines h hlines] at ht
    simp [bind, Except.bind] at ht
  refine ⟨⟨?_, ?_⟩, ?_, ⟨?_, ?_⟩, ?_⟩
  · rintro ⟨g, hg⟩
    have hlines := hparse g hg
    rw [parse_crlf h hlines, map_eq_ok] at hg
    exact ⟨⟨hg.choose, hg.choose_spec.1⟩, hlines⟩
  · rintro ⟨⟨f, hf⟩, hlines⟩
    exact ⟨f.crlf, by rw [parse_crlf h hlines, hf]; rfl⟩
  · intro f g hf hg
    rw [parse_crlf h (hparse g hg), hf] at hg
    obtain rfl := Except.ok.inj hg
    -- Line endings are changed in the texts of a parameter only, not in its name or kind.
    have hnames : ∀ ps : List Parameter,
        (ps.map Parameter.crlf).map (·.name) = ps.map (·.name) ∧
          (ps.map Parameter.crlf).map (·.kind) = ps.map (·.kind) := fun ps => by
      rw [List.map_map, List.map_map]
      exact ⟨rfl, rfl⟩
    exact ⟨rfl, rfl, (hnames f.parameters).1, (hnames f.parameters).2, rfl, rfl⟩
  · rintro ⟨t, ht⟩
    have hlines := hstrip t ht
    rw [stripDecorators_crlf h hlines, map_eq_ok] at ht
    exact ⟨⟨ht.choose, ht.choose_spec.1⟩, hlines⟩
  · rintro ⟨⟨t, ht⟩, hlines⟩
    exact ⟨crlfText t, by rw [stripDecorators_crlf h hlines, ht]; rfl⟩
  · intro t t' ht ht'
    rw [stripDecorators_crlf h (hstrip t' ht'), ht] at ht'
    exact (Except.ok.inj ht').symm

/-- A definition with line ends in brackets, in a string between three quotes and behind a
backslash. -/
def acrossLines : String :=
  "@a(1, # b\n \'\'\'x\\\ny\'\'\') \\\n .c\n\ndef f(x, /,\n y=\"\"): pass\n"

/-- All these line ends may be those of two characters. -/
theorem crlf_agrees_across_lines : ∃ f g t,
    FunctionDef.parse acrossLines = .ok f ∧ FunctionDef.parse (crlfText acrossLines) = .ok g ∧
      g.parameters.map (·.kind) = f.parameters.map (·.kind) ∧
      g.decoratorLines = f.decoratorLines ∧ g.defLine = f.defLine ∧
      stripDecorators acrossLines = .ok t ∧
      stripDecorators (crlfText acrossLines) = .ok (crlfText t) := by
  have hreturns : '\r' ∉ acrossLines.toList := by
    rw [acrossLines, String.toList_ofList]
    decide
  have hg := eq_ok_of_isSome (x := FunctionDef.parse (crlfText acrossLines)) (by
    rw [acrossLines, crlfText, String.toList_ofList, FunctionDef.parse_ofList]
    decide +kernel)
  have ht' := eq_ok_of_isSome (x := stripDecorators (crlfText acrossLines)) (by
    rw [acrossLines, crlfText, String.toList_ofList, stripDecorators_ofList]
    decide +kernel)
  obtain ⟨hparsed, hparse, hstripped, hstrip⟩ := crlf_agrees_iff acrossLines hreturns
  obtain ⟨⟨f, hf⟩, -⟩ := hparsed.mp ⟨_, hg⟩
  obtain ⟨⟨t, ht⟩, -⟩ := hstripped.mp ⟨_, ht'⟩
  obtain ⟨-, -, -, hkinds, hdecorators, hline⟩ := hparse _ _ hf hg
  exact ⟨f, _, t, hf, hg, hkinds, hdecorators, hline, ht, by rw [← hstrip t _ ht ht']; exact ht'⟩

/-- A string that a backslash carries on to the next line is read with a line feed, and not with a
carriage return before it. -/
theorem crlf_refused_in_continued_string :
    (∃ f, FunctionDef.parse "@a(\'x\\\ny\')\ndef f(): pass\n" = .ok f) ∧
      FunctionDef.parse "@a(\'x\\\r\ny\')\r\ndef f(): pass\r\n" = .error .noMatch ∧
      stripDecorators "@a(\'x\\\ny\')\ndef f(): pass\n" = .ok "def f(): pass\n" ∧
      stripDecorators "@a(\'x\\\r\ny\')\r\ndef f(): pass\r\n" = .error .noMatch ∧
      "@a(\'x\\\r\ny\')\r\ndef f(): pass\r\n" =
        crlfText "@a(\'x\\\ny\')\ndef f(): pass\n" := by
  refine ⟨⟨_, eq_ok_of_isSome (by decide +kernel)⟩, ?_, ?_, ?_, ?_⟩
  · decide +kernel
  · exact eq_ok_of_toOption_eq (by decide +kernel)
  · decide +kernel
  · decide +kernel

end UdfBridge.Source
