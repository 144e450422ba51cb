import UdfBridge.Proofs.Grammar.Nodes
import UdfBridge.Proofs.Source.Heading
import UdfBridge.Proofs.Source.Kinds

/-!
# Names

The names of a definition are identifiers: that of the function, and those of its parameters
(`FunctionDef.isName_of_parse`). So none of the characters that give a definition or a call its
structure occurs in them (`not_mem_of_isName`).
-/

namespace UdfBridge.Source

open Grammar
open Grammar.Pattern
open Text (Position)

/-- Whether the text is an identifier. -/
def isName : List Char → Bool
  | [] => false
  | c :: cs => startsIdentifier c && cs.all Text.isXidContinue

/-- A character that is in no identifier. -/
theorem not_mem_of_isName {c : Char} (hstart : startsIdentifier c = false)
    (hcontinue : Text.isXidContinue c = false) {s : List Char} (h : isName s = true) : c ∉ s := by
  cases s with
  | nil => simp
  | cons d s =>
    obtain ⟨hd, hs⟩ := Bool.and_eq_true_iff.mp h
    rw [List.mem_cons, not_or]
    constructor
    · rintro rfl
      simp [hstart] at hd
    · intro hmem
      have := List.all_eq_true.mp hs c hmem
      simp [hcontinue] at this

/-! ## Matches -/

/-- The characters of an identifier. -/
def identifierText : Pattern Rule :=
  seq (one startsIdentifier) (star (one Text.isXidContinue))

/-- A repetition of single characters takes none but those that are accepted. -/
theorem accepts_of_star_one {accepts : Char → Bool} {s r : List Char} {f : Forest Rule}
    (h : (star (one accepts)).run s = some (f, r)) : ∀ c ∈ f.text, accepts c = true := by
  refine run_star_induction (Q := fun _ f _ => ∀ c ∈ f.text, accepts c = true)
    (fun _ _ hc => absurd hc List.not_mem_nil) (fun hrun _ ih => ?_) h
  obtain ⟨c, haccepts, -, rfl⟩ := run_one.mp hrun
  exact List.forall_mem_cons.mpr ⟨haccepts, ih⟩

/-- What is matched as the characters of an identifier is one. -/
theorem isName_of_run {s r : List Char} {f : Forest Rule}
    (h : identifierText.run s = some (f, r)) : isName f.text = true := by
  obtain ⟨f₁, r₁, f₂, hstart, hrest, rfl⟩ := run_seq.mp h
  obtain ⟨c, haccepts, -, rfl⟩ := run_one.mp hstart
  exact Bool.and_eq_true_iff.mpr
    ⟨haccepts, List.all_eq_true.mpr (accepts_of_star_one hrest)⟩

/-! ## Nodes -/

/-- The rules of the nodes that stand for one parameter. -/
def parameterRules : List Rule := [.parameter, .varPositional, .varKeyword]

/-- What the names of a definition are made of: the nodes whose texts are names have identifiers for
texts, and every parameter has a name. -/
structure Named (rule : Rule) (f : Forest Rule) : Prop where
  text : rule = .identifier ∨ rule = .functionName → isName f.text = true
  parameter : rule ∈ parameterRules → Rule.identifier ∈ f.topRules

/-- The names in a tree are made of identifiers. -/
theorem named_source {s r : List Char} {f : Forest Rule} (h : source.run s = some (f, r)) :
    f.Each Named := by
  have hnames : source.named.filter (fun x => x.1 = .identifier ∨ x.1 = .functionName) =
      (.functionName, identifier) :: List.replicate 7 (.identifier, identifierText) := rfl
  have hparameters : (source.named.all fun x =>
      !parameterRules.contains x.1 || x.2.alwaysMarks .identifier) = true := by decide
  refine each_run (p := source) (fun x hx s f r hrun => ⟨fun hrule => ?_, fun hrule => ?_⟩) s f r h
  · -- All patterns of these nodes match identifiers.
    have hmem : x ∈ source.named.filter (fun x => x.1 = .identifier ∨ x.1 = .functionName) :=
      List.mem_filter.mpr ⟨hx, by simpa using hrule⟩
    rw [hnames] at hmem
    rcases List.mem_cons.mp hmem with rfl | hmem
    · obtain ⟨g, hg, rfl⟩ := run_node.mp hrun
      simpa [Forest.text] using isName_of_run hg
    · obtain rfl := (List.mem_replicate.mp hmem).2
      exact isName_of_run hrun
  · -- No pattern of a parameter matches without its name.
    have hmarks := List.all_eq_true.mp hparameters x hx
    rw [List.contains_iff_mem.mpr hrule] at hmarks
    exact mem_topRules_of_alwaysMarks hmarks hrun

namespace Division

variable {s : List Char} (d : Division s)

/-- The names in a header are made of identifiers. -/
theorem named_header : d.header.Each Named := by
  obtain ⟨-, hroot, -⟩ := named_source d.run_source
  obtain ⟨-, hheader, -⟩ := hroot.of_append.2
  exact hheader

end Division

/-- The name of the function is an identifier, and the names in the list of parameters are made of
identifiers. -/
theorem Heading.named {header : Forest Rule} (H : Heading header) (h : header.Each Named) :
    isName H.name.text = true ∧ H.parameters.Each Named := by
  rw [H.eq] at h
  obtain ⟨hname, -, hrest⟩ := h.of_append.2
  obtain ⟨-, hparameters, -⟩ := hrest.of_append.2
  exact ⟨hname.text (.inr rfl), hparameters⟩

/-! ## Parameters -/

/-- A parameter has the name of a node, or the one that it had. -/
theorem WrittenParameter.isName_foldlM {ns : List (Node Rule)}
    (hns : ∀ n ∈ ns, n.rule = .identifier → isName n.chars = true) {p p' : WrittenParameter}
    (h : ns.foldlM addNode p = .ok p')
    (hp : isName p.name.toList = true ∨ ∃ n ∈ ns, n.rule = .identifier) :
    isName p'.name.toList = true := by
  induction ns generalizing p with
  | nil =>
    obtain rfl := Except.ok.inj h
    exact hp.resolve_right (by simp)
  | cons n ns ih =>
    rw [List.foldlM_cons] at h
    obtain ⟨q, hq, hrest⟩ := bind_eq_ok.mp h
    rw [List.forall_mem_cons] at hns
    refine ih hns.2 hrest ?_
    unfold addNode at hq
    split at hq
    · rename_i hrule
      obtain rfl := Except.ok.inj hq
      refine .inl ?_
      rw [Node.text, String.toList_ofList]
      exact hns.1 hrule
    -- The other nodes leave the name as it is.
    all_goals grind

/-- The parameter of an item that is none of the two markers. -/
def Item.parameter? : Item → Option WrittenParameter
  | .slash | .star => none
  | .plain p | .starred p | .doubleStarred p => some p

/-- The name of an item that is read is an identifier. -/
theorem Item.isName_of_ofNode {n : Node Rule} (hself : Named n.rule n.inner)
    (hinner : n.inner.Each Named) {i : Item} (h : ofNode n = .ok i) {p : WrittenParameter}
    (hp : i.parameter? = some p) : isName p.name.toList = true := by
  have hnodes : n.rule ∈ parameterRules → WrittenParameter.ofNodes n.children = .ok p →
      isName p.name.toList = true := by
    intro hrule hread
    refine WrittenParameter.isName_foldlM (fun m hm hname => ?_) hread (.inr ?_)
    · exact (hinner.of_mem_nodes hm).1.text (.inl hname)
    · have hmem := hself.parameter hrule
      rw [← n.inner.map_rule_nodes n.start] at hmem
      exact List.mem_map.mp hmem
  unfold ofNode at h
  split at h
  all_goals grind [parameterRules, map_eq_ok, parameter?]

namespace Parameter

/-- Every parameter is that of an item. -/
theorem exists_item_of_mem_ofItemsAfter {kind : ParameterKind} {earlier : List Parameter}
    {items : List Item} {p : Parameter} (h : p ∈ ofItemsAfter kind earlier items) :
    (∃ q ∈ earlier, q.toWrittenParameter = p.toWrittenParameter) ∨
      ∃ i ∈ items, i.parameter? = some p.toWrittenParameter := by
  induction items generalizing kind earlier with
  | nil => exact .inl ⟨p, h, rfl⟩
  | cons i items ih =>
    cases i with
    | slash =>
      -- The slash changes the kinds of the earlier parameters, and nothing else of them.
      rcases ih h with ⟨q, hq, heq⟩ | ⟨i, hi, heq⟩
      · obtain ⟨q', hq', rfl⟩ := List.mem_map.mp hq
        exact .inl ⟨q', hq', heq⟩
      · exact .inr ⟨i, List.mem_cons_of_mem _ hi, heq⟩
    | star =>
      rcases ih h with hearlier | ⟨i, hi, heq⟩
      · exact .inl hearlier
      · exact .inr ⟨i, List.mem_cons_of_mem _ hi, heq⟩
    | plain w | starred w | doubleStarred w =>
      rcases ih h with ⟨q, hq, heq⟩ | ⟨i, hi, heq⟩
      · rcases List.mem_append.mp hq with hq | hq
        · exact .inl ⟨q, hq, heq⟩
        · obtain rfl := List.mem_singleton.mp hq
          exact .inr ⟨_, List.mem_cons_self, congrArg some heq⟩
      · exact .inr ⟨i, List.mem_cons_of_mem _ hi, heq⟩

/-- Every parameter of a list is that of an item. -/
theorem exists_item_of_mem_ofItems {items : List Item} {p : Parameter} (h : p ∈ ofItems items) :
    ∃ i ∈ items, i.parameter? = some p.toWrittenParameter :=
  (exists_item_of_mem_ofItemsAfter h).resolve_left (by simp)

/-- The parameters of a list have names. -/
theorem isName_of_ofNodes {ns : List (Node Rule)}
    (hns : ∀ n ∈ ns, Named n.rule n.inner ∧ n.inner.Each Named) {ps : List Parameter}
    (h : ofNodes ns = .ok ps) : ∀ p ∈ ps, isName p.name.toList = true := by
  obtain ⟨items, hitems, rfl⟩ := map_eq_ok.mp h
  intro p hp
  obtain ⟨i, hi, hparameter⟩ := exists_item_of_mem_ofItems hp
  obtain ⟨n, hn, hread⟩ := exists_of_mem_mapM hitems hi
  exact Item.isName_of_ofNode (hns n hn).1 (hns n hn).2 hread hparameter

end Parameter

/-- The names of a definition that was read from a text are identifiers. -/
theorem FunctionDef.isName_of_parse {text : String} {f : FunctionDef} (h : parse text = .ok f) :
    isName f.name.toList = true ∧ ∀ p ∈ f.parameters, isName p.name.toList = true := by
  obtain ⟨d, start, -, -, hheader⟩ := exists_header_of_parse h
  obtain ⟨H⟩ := exists_heading d.run_header
  obtain ⟨hname, hparameters⟩ := H.named d.named_header
  constructor
  · rw [name_of_heading H hheader, String.toList_ofList]
    exact hname
  · exact Parameter.isName_of_ofNodes (fun n hn => hparameters.of_mem_nodes hn)
      (parameters_of_heading H hheader)

end UdfBridge.Source
