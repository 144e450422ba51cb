import UdfBridge.Proofs.Source.Division
import UdfBridge.Proofs.Text.Line

/-!
# Definitions without their decorators

`stripDecorators` reads the number of the header's line off the tree and cuts the text at that line.
The tree knows three line breaks and the lines only one, so the two agree on where the header is
only if nothing but blank lines stands before it on its line. `stripDecorators_eq` says what the cut
leaves, and `stripDecorators_exact_iff` that it is the definition without its decorators in exactly
that case; it is the case in every text whose carriage returns are followed by line feeds.
-/

namespace UdfBridge.Grammar

variable {ρ : Type} [DecidableEq ρ]

/-- The text of a forest before its first outermost node of `rule`. -/
def Forest.textBefore (rule : ρ) : Forest ρ → List Char
  | nil => []
  | char c next => c :: next.textBefore rule
  | node r inner next => if r = rule then [] else inner.text ++ next.textBefore rule

/-- The text before a node is that of the forest before it, if the node is the first of its rule. -/
theorem Forest.textBefore_append_node {rule : ρ} {f : Forest ρ} (hf : rule ∉ f.topRules)
    (inner next : Forest ρ) : (f ++ node rule inner next).textBefore rule = f.text := by
  induction f with
  | nil => simp [textBefore, text]
  | char c f ih =>
    rw [char_append, textBefore, text, ih hf]
  | node r i f _ ih =>
    rw [topRules, List.mem_cons, not_or] at hf
    rw [node_append, textBefore, text, if_neg (fun e => hf.1 e.symm), ih hf.2]

end UdfBridge.Grammar

namespace UdfBridge.Source

open Grammar
open Text (Position fromLine unfinishedLine ReturnsPaired)

/-- The texts of the nodes of `rule` directly inside a node, in order. -/
def textsOf (rule : Rule) (n : Node Rule) : List String :=
  (n.children.filter (·.rule = rule)).map Node.text

/-- `stripped` is the definition `text` without its decorators, and with all of its header and
body. -/
structure IsUndecorated (text stripped : String) : Prop where
  /-- Only what stands at the start of the text is missing. -/
  suffix : stripped.toList <:+ text.toList
  /-- What is left is a definition without decorators, with the same header and body. -/
  trees : ∃ n m, root text = .ok n ∧ root stripped = .ok m ∧ textsOf .decorator m = [] ∧
    textsOf .defHeader m = textsOf .defHeader n ∧ textsOf .body m = textsOf .body n
  /-- There is nothing left to strip. -/
  stable : stripDecorators stripped = .ok stripped

/-- The part of the header's line that stands before the header. -/
def beforeHeader (n : Node Rule) : List Char :=
  unfinishedLine (n.inner.textBefore .defHeader)

/-- What follows the lead of a definition: the header and the body. -/
def fromHeader (n : Node Rule) : List Char :=
  n.chars.drop (n.inner.textBefore .defHeader).length

/-- Nothing but blank lines stands before the header on its line. -/
def OpensLine (n : Node Rule) : Prop :=
  (many blankLine.run (beforeHeader n ++ fromHeader n)).2 = fromHeader n

/-! ## The tree of a division -/

namespace Division

variable {s : List Char} (d : Division s)

/-- The children of the tree are the nodes of the lead and those from the header on. -/
theorem children_root : d.root.children =
    d.lead.nodes .origin ++ d.tail.nodes (Position.origin.advance d.lead.text) :=
  Forest.nodes_append _ _ _

/-- The nodes before the header are decorators. -/
theorem rule_of_mem_lead {n : Node Rule} (hn : n ∈ d.lead.nodes .origin) : n.rule = .decorator := by
  apply topRules_lead d.run_lead
  rw [← d.lead.map_rule_nodes .origin]
  exact List.mem_map_of_mem hn

/-- What stands before the header of the tree is the lead. -/
theorem textBefore_defHeader : d.root.inner.textBefore .defHeader = d.lead.text := by
  apply Forest.textBefore_append_node
  intro hmem
  have := topRules_lead d.run_lead _ hmem
  simp at this

/-- What stands before the header on its line is the last line of the lead. -/
theorem beforeHeader_root : beforeHeader d.root = unfinishedLine d.lead.text := by
  rw [beforeHeader, textBefore_defHeader]

/-- What follows the lead is the header and the body. -/
theorem fromHeader_root : fromHeader d.root = d.header.text ++ d.body := by
  rw [fromHeader, textBefore_defHeader, chars_root, List.drop_left]

/-- The decorators are the nodes before the header. -/
theorem filter_decorator : d.root.children.filter (·.rule = Rule.decorator) =
    d.lead.nodes .origin := by
  have hlead : (d.lead.nodes .origin).filter (·.rule = Rule.decorator) = d.lead.nodes .origin := by
    rw [List.filter_eq_self]
    intro n hn
    rw [d.rule_of_mem_lead hn]
    rfl
  rw [children_root, List.filter_append, hlead]
  exact List.append_nil _

/-- Only decorators stand before the header, so a node of another rule is the header or stands
behind it. -/
theorem textsOf_root {rule : Rule} (h : rule ≠ .decorator) : textsOf rule d.root =
    ((d.tail.nodes (Position.origin.advance d.lead.text)).filter (·.rule = rule)).map Node.text := by
  have hnone : (d.lead.nodes .origin).filter (·.rule = rule) = [] := by
    rw [List.filter_eq_nil_iff]
    intro n hn
    rw [d.rule_of_mem_lead hn]
    simpa using h.symm
  rw [textsOf, children_root, List.filter_append, hnone, List.nil_append]

/-- There is one header in the tree. -/
theorem textsOf_defHeader : textsOf .defHeader d.root = [.ofList d.header.text] :=
  d.textsOf_root (by decide)

/-- There is one body in the tree. -/
theorem textsOf_body : textsOf .body d.root = [.ofList d.body] := by
  rw [d.textsOf_root (by decide)]
  have : ((d.tail.nodes (Position.origin.advance d.lead.text)).filter (·.rule = Rule.body)).map
      Node.text = [.ofList (plainForest d.body).text] := rfl
  rw [this, text_plainForest]

/-- There are no decorators in the tree if the lead is blank. -/
theorem textsOf_decorator_eq_nil_iff : textsOf .decorator d.root = [] ↔ d.lead.topRules = [] := by
  rw [textsOf, filter_decorator, List.map_eq_nil_iff, ← d.lead.map_rule_nodes .origin,
    List.map_eq_nil_iff]

/-- The header's line is asked for if there is a decorator, and counts the line feeds of the
lead. -/
theorem lineBehindDecorators?_root : lineBehindDecorators? d.root.children =
    if d.lead.topRules = [] then none else some (d.lead.text.count '\n' + 1) := by
  have hlead : ∀ n ∈ d.lead.nodes .origin, (n.rule != .defHeader) = true := by
    intro n hn
    rw [d.rule_of_mem_lead hn]
    rfl
  -- The first node behind the lead is the header, so that is where the search stops.
  have htail : d.tail.nodes (Position.origin.advance d.lead.text) =
      ⟨.defHeader, Position.origin.advance d.lead.text, d.header⟩ ::
        (d.tail.nodes (Position.origin.advance d.lead.text)).tail := rfl
  -- All nodes of the lead are decorators, so there is one if there is a node.
  have hany : (d.lead.nodes .origin).any (·.rule == .decorator) = true ↔ ¬ d.lead.topRules = [] := by
    rw [← d.lead.map_rule_nodes .origin, List.map_eq_nil_iff]
    cases hnodes : d.lead.nodes .origin with
    | nil => simp
    | cons n ns =>
      have hn : n.rule = .decorator := d.rule_of_mem_lead (by rw [hnodes]; exact List.mem_cons_self)
      simp [hn]
  have hline : (Position.origin.advance d.lead.text).line = d.lead.text.count '\n' + 1 := by
    rw [Position.line_advance, Nat.add_comm]
    rfl
  unfold lineBehindDecorators?
  rw [children_root, htail, List.takeWhile_append_of_pos hlead,
    List.takeWhile_cons_of_neg (by simp), List.append_nil]
  by_cases hnil : d.lead.topRules = []
  · rw [if_pos hnil, if_neg (fun h => hany.mp h hnil)]
  · rw [if_neg hnil, if_pos (hany.mpr hnil), List.find?_append,
      List.find?_eq_none.mpr (fun n hn => by simpa using hlead n hn)]
    simp [hline]

end Division

/-! ## What stripping leaves -/

/-- With a decorator, stripping leaves what stands before the header on its line, the header and the
body; without one, it leaves all of the text. -/
theorem stripDecorators_eq {text : String} (d : Division text.toList) :
    stripDecorators text = .ok (if d.lead.topRules = [] then text
      else .ofList (unfinishedLine d.lead.text ++ (d.header.text ++ d.body))) := by
  have hroot : root text = .ok d.root := root_eq_ok_iff.mpr ⟨d, rfl⟩
  unfold stripDecorators
  rw [hroot]
  simp only [bind, Except.bind, d.lineBehindDecorators?_root]
  by_cases hnil : d.lead.topRules = []
  · rw [if_pos hnil, if_pos hnil]
    rfl
  · rw [if_neg hnil, if_neg hnil]
    have hcut : fromLine (d.lead.text.count '\n' + 1) text.toList =
        unfinishedLine d.lead.text ++ (d.header.text ++ d.body) :=
      calc fromLine (d.lead.text.count '\n' + 1) text.toList
          = fromLine (d.lead.text.count '\n' + 1) (d.lead.text ++ (d.header.text ++ d.body)) :=
            congrArg _ d.text_eq
        _ = unfinishedLine d.lead.text ++ (d.header.text ++ d.body) := Text.fromLine_count _ _
    simp only [hcut]
    rfl

/-- Blank lines before the header and body of a definition make a definition with an empty tree of
decorators. -/
theorem Division.exists_of_blankLines {s a : List Char} (d : Division s)
    (h : (many blankLine.run (a ++ (d.header.text ++ d.body))).2 = d.header.text ++ d.body) :
    ∃ e : Division (a ++ (d.header.text ++ d.body)),
      e.lead.topRules = [] ∧ e.header = d.header ∧ e.body = d.body := by
  obtain ⟨-, hgroups⟩ := many_rest_of_lead d.run_lead
  generalize hm : many blankLine.run (a ++ (d.header.text ++ d.body)) = m at h
  obtain ⟨f, r⟩ := m
  subst h
  have hblank : (Pattern.star blankLine).run (a ++ (d.header.text ++ d.body)) =
      some (f, d.header.text ++ d.body) := by rw [Pattern.run_star, hm]
  have hlead : leadPattern.run (a ++ (d.header.text ++ d.body)) =
      some (f, d.header.text ++ d.body) := by
    refine Pattern.run_seq.mpr ⟨f, _, .nil, hblank, ?_, (Forest.append_nil f).symm⟩
    rw [Pattern.run_star, hgroups]
  refine ⟨⟨f, d.header, d.body, hlead, d.run_header⟩, ?_, rfl, rfl⟩
  exact List.subset_nil.mp (Pattern.topRules_run (.star blankLine) _ _ _ hblank)

/-- A text without decorators has nothing to strip. -/
theorem isUndecorated_self {text : String} (d : Division text.toList)
    (h : d.lead.topRules = []) : IsUndecorated text text where
  suffix := List.suffix_refl _
  trees := by
    have hroot : root text = .ok d.root := root_eq_ok_iff.mpr ⟨d, rfl⟩
    exact ⟨d.root, d.root, hroot, hroot, d.textsOf_decorator_eq_nil_iff.mpr h, rfl, rfl⟩
  stable := by rw [stripDecorators_eq d, if_pos h]

/-- From the header's line on, a text is the definition without its decorators exactly if the header
opens its line. -/
theorem isUndecorated_iff_opensLine {text : String} (d : Division text.toList) :
    IsUndecorated text (.ofList (unfinishedLine d.lead.text ++ (d.header.text ++ d.body))) ↔
      OpensLine d.root := by
  have hroot : root text = .ok d.root := root_eq_ok_iff.mpr ⟨d, rfl⟩
  unfold OpensLine
  rw [d.beforeHeader_root, d.fromHeader_root]
  generalize hstripped : String.ofList (unfinishedLine d.lead.text ++ (d.header.text ++ d.body)) =
    stripped
  have hchars : stripped.toList = unfinishedLine d.lead.text ++ (d.header.text ++ d.body) := by
    rw [← hstripped, String.toList_ofList]
  rw [← hchars]
  constructor
  · rintro ⟨-, ⟨n, m, hn, hm, hdecorators, hheader, hbody⟩, -⟩
    obtain rfl : d.root = n := Except.ok.inj (hroot.symm.trans hn)
    obtain ⟨e, rfl⟩ := root_eq_ok_iff.mp hm
    -- The lead of what is left is a run of blank lines, and it is what stands before the header.
    have hblank := many_blankLine_of_topRules_eq_nil e.run_lead
      (e.textsOf_decorator_eq_nil_iff.mp hdecorators)
    rw [e.textsOf_defHeader, d.textsOf_defHeader, List.singleton_inj, String.ofList_inj] at hheader
    rw [e.textsOf_body, d.textsOf_body, List.singleton_inj, String.ofList_inj] at hbody
    rw [hblank, hheader, hbody]
  · intro hopens
    have hex := d.exists_of_blankLines (by rwa [hchars] at hopens)
    rw [← hchars] at hex
    obtain ⟨e, hnil, hheader, hbody⟩ := hex
    constructor
    · obtain ⟨a, ha⟩ := Text.unfinishedLine_suffix d.lead.text
      refine ⟨a, ?_⟩
      rw [hchars, ← List.append_assoc, ha]
      exact d.text_eq.symm
    · refine ⟨d.root, e.root, hroot, root_eq_ok_iff.mpr ⟨e, rfl⟩, ?_, ?_, ?_⟩
      · exact e.textsOf_decorator_eq_nil_iff.mpr hnil
      · rw [e.textsOf_defHeader, d.textsOf_defHeader, hheader]
      · rw [e.textsOf_body, d.textsOf_body, hbody]
    · rw [stripDecorators_eq e, if_pos hnil]

/-- Where a carriage return at the end of the lead is followed by a line feed, no part of a line
stands before the header. -/
theorem unfinishedLine_of_returns {s : List Char} (d : Division s)
    (h : ∀ a, d.lead.text = a ++ ['\r'] → (d.header.text ++ d.body).head? = some '\n') :
    unfinishedLine d.lead.text = [] := by
  rcases keepsLineStart_leadPattern _ _ _ d.run_lead with hnil | hfeed | ⟨hreturn, hhead⟩
  · rw [hnil, Text.unfinishedLine_nil]
  · exact Text.unfinishedLine_of_getLast? hfeed
  · obtain ⟨a, ha⟩ := List.getLast?_eq_some_iff.mp hreturn
    exact absurd (h a ha) hhead

/-- Where carriage returns are followed by line feeds, no part of a line stands before the header. -/
theorem unfinishedLine_lead {s : List Char} (d : Division s) (h : ReturnsPaired s) :
    unfinishedLine d.lead.text = [] := by
  refine unfinishedLine_of_returns d fun a ha => h a _ ?_
  conv_lhs => rw [d.text_eq, ha, List.append_assoc]
  rfl

/-- Where carriage returns are followed by line feeds, a header starts its line. -/
theorem opensLine_of_returnsPaired {s : List Char} (d : Division s) (h : ReturnsPaired s) :
    OpensLine d.root := by
  unfold OpensLine
  rw [d.beforeHeader_root, d.fromHeader_root, unfinishedLine_lead d h, List.nil_append,
    (many_rest_of_lead d.run_lead).1]

/-- Stripping a definition always gives a text. It is the definition without its decorators exactly
if there are none or the header opens its line; and so it is wherever every carriage return is
followed by a line feed. -/
theorem stripDecorators_exact_iff (text : String) (n : Node Rule) (h : root text = .ok n) :
    ∃ stripped, stripDecorators text = .ok stripped ∧
      (IsUndecorated text stripped ↔ textsOf .decorator n = [] ∨ OpensLine n) ∧
      (ReturnsPaired text.toList → IsUndecorated text stripped) := by
  obtain ⟨d, rfl⟩ := root_eq_ok_iff.mp h
  refine ⟨_, stripDecorators_eq d, ?_⟩
  rw [d.textsOf_decorator_eq_nil_iff]
  by_cases hnil : d.lead.topRules = []
  · rw [if_pos hnil]
    exact ⟨⟨fun _ => .inl hnil, fun _ => isUndecorated_self d hnil⟩,
      fun _ => isUndecorated_self d hnil⟩
  · rw [if_neg hnil, isUndecorated_iff_opensLine d]
    exact ⟨⟨.inr, fun h => h.resolve_left hnil⟩, opensLine_of_returnsPaired d⟩

/-! ## Computing with texts -/

/-- The node of the definition that the characters make up. -/
def treeOf (cs : List Char) : Except ReadError (Node Rule) :=
  match (source.run cs).map fun m => m.1.nodes .origin with
  | none => .error .noMatch
  | some [] => .error .noDefinition
  | some (n :: _) => .ok n

/-- A text given by its characters is read without taking it apart. -/
theorem root_ofList (cs : List Char) : root (.ofList cs) = treeOf cs := by
  unfold root parse?
  simp only [String.toList_ofList]
  rfl

/-- A text given by its characters is stripped without taking it apart. -/
theorem stripDecorators_ofList (cs : List Char) : stripDecorators (.ofList cs) =
    (fun n => .ofList <|
      ((lineBehindDecorators? n.children).map (fromLine · cs)).getD cs) <$> treeOf cs := by
  rw [stripDecorators, root_ofList, String.toList_ofList]
  cases treeOf cs with
  | error e => rfl
  | ok n =>
    simp only [bind, Except.bind, Functor.map, Except.map]
    cases lineBehindDecorators? n.children <;> rfl

/-- A text given by its characters is parsed without taking it apart. -/
theorem FunctionDef.parse_ofList (cs : List Char) : FunctionDef.parse (.ofList cs) = (do
    let n ← treeOf (Text.dedentChars cs)
    n.children.foldlM addNode (blank (.ofList (Text.dedentChars cs)))) := by
  rw [← root_ofList, FunctionDef.parse, Text.dedent, String.toList_ofList]

/-- A computation that gives something of which `P` holds. -/
theorem exists_eq_ok {ε α : Type} {x : Except ε α} {P : α → Prop} (h : ∃ a ∈ x.toOption, P a) :
    ∃ a, x = .ok a ∧ P a := by
  obtain ⟨a, ha, hP⟩ := h
  cases x with
  | error e => simp [Except.toOption] at ha
  | ok b =>
    obtain rfl := Option.some.inj ha
    exact ⟨_, rfl, hP⟩

/-- What a computation gives, if it gives something. -/
theorem eq_ok_of_isSome {ε α : Type} [Inhabited α] {x : Except ε α}
    (h : x.toOption.isSome = true) : x = .ok (x.toOption.getD default) := by
  cases x with
  | error e => simp [Except.toOption] at h
  | ok a => rfl

/-- A computation of which the result is known gives it. -/
theorem eq_ok_of_toOption_eq {ε α : Type} {x : Except ε α} {a : α} (h : x.toOption = some a) :
    x = .ok a := by
  cases x with
  | error e => simp [Except.toOption] at h
  | ok b => rw [Option.some.inj h]

/-- A header opens its line behind blank lines that carriage returns end, so its decorator is
stripped. -/
theorem stripDecorators_exact_behind_returns : ∃ n stripped,
    root "@a(1,\n 2)\n\r# b\r\tdef f(x): pass" = .ok n ∧
      textsOf .decorator n = ["@a(1,\n 2)\n"] ∧
      stripDecorators "@a(1,\n 2)\n\r# b\r\tdef f(x): pass" = .ok stripped ∧
      IsUndecorated "@a(1,\n 2)\n\r# b\r\tdef f(x): pass" stripped := by
  have hroot : root "@a(1,\n 2)\n\r# b\r\tdef f(x): pass" =
      .ok ((root "@a(1,\n 2)\n\r# b\r\tdef f(x): pass").toOption.getD default) :=
    eq_ok_of_isSome (by decide +kernel)
  have hopens : OpensLine
      ((root "@a(1,\n 2)\n\r# b\r\tdef f(x): pass").toOption.getD default) := by
    unfold OpensLine
    decide +kernel
  obtain ⟨stripped, hstripped, hiff, -⟩ := stripDecorators_exact_iff _ _ hroot
  exact ⟨_, stripped, hroot, by decide +kernel, hstripped, hiff.mpr (.inr hopens)⟩

/-- A decorator that a carriage return ends stands on the line of the header, and is not
stripped. -/
theorem not_isUndecorated_of_lone_return :
    ¬ ∀ text n, root text = .ok n →
      ∃ stripped, stripDecorators text = .ok stripped ∧ IsUndecorated text stripped := by
  intro h
  have hroot : root "@a\rdef f(): pass" =
      .ok ((root "@a\rdef f(): pass").toOption.getD default) :=
    eq_ok_of_isSome (by decide +kernel)
  have hsame : stripDecorators "@a\rdef f(): pass" = .ok "@a\rdef f(): pass" :=
    eq_ok_of_toOption_eq (by decide +kernel)
  obtain ⟨stripped, hstripped, -, ⟨n, m, hn, hm, hdecorators, -⟩, -⟩ := h _ _ hroot
  obtain rfl : "@a\rdef f(): pass" = stripped := Except.ok.inj (hsame.symm.trans hstripped)
  obtain rfl : _ = m := Except.ok.inj (hroot.symm.trans hm)
  have hleft : textsOf .decorator ((root "@a\rdef f(): pass").toOption.getD default) = ["@a\r"] := by
    decide +kernel
  rw [hleft] at hdecorators
  simp at hdecorators

end UdfBridge.Source
