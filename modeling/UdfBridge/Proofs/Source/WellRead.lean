import Mathlib.Data.List.DropRight
import UdfBridge.Proofs.Source.Placed
import UdfBridge.Proofs.Source.Reading

/-!
# What is read off a tree

A text that is no definition is refused, and that is the only way in which reading fails
(`FunctionDef.parse_eq_error_iff`, `stripDecorators_eq_error_iff`): every tree has a root, and every
node of it is in a place that the readers know (`Source.Placed`). What they read off is sound. The
names are identifiers from end to end, the texts of annotations and default values have no white
space around them, and the lines that a text is cut at are lines, for they are counted from 1
(`reading_safe`).
-/

namespace UdfBridge.Text

/-- The text has no white space at its start and none at its end. -/
structure IsTrimmed (s : String) : Prop where
  head : ∀ c ∈ s.toList.head?, isBlank c = false
  last : ∀ c ∈ s.toList.getLast?, isBlank c = false

/-- A text that is trimmed has no white space around it. -/
theorem isTrimmed_trim (s : String) : IsTrimmed (trim s) := by
  have htrim : (trim s).toList = (s.toList.dropWhile isBlank).rdropWhile isBlank :=
    String.toList_ofList
  constructor <;> rw [htrim]
  · -- What is cut off behind the first character leaves that one as it is.
    intro c hc
    obtain ⟨t, ht⟩ := List.head?_eq_some_iff.mp hc
    obtain ⟨u, hu⟩ := List.rdropWhile_prefix isBlank (s.toList.dropWhile isBlank)
    have hnot := List.head?_dropWhile_not isBlank s.toList
    rw [← hu, ht] at hnot
    simpa using hnot
  · intro c hc
    obtain ⟨hne, rfl⟩ := List.mem_getLast?_eq_getLast hc
    exact Bool.eq_false_iff.mpr (List.rdropWhile_last_not _ _ hne)

end UdfBridge.Text

namespace UdfBridge.Source

open Grammar
open Grammar.Pattern
open Text (Position IsTrimmed)

/-! ## Failures -/

/-- A text without a tree does not match the grammar. -/
theorem root_eq_error_iff {text : String} {e : ReadError} :
    root text = .error e ↔ e = .noMatch ∧ parse? .source text = none := by
  unfold root
  cases hparse : parse? .source text with
  | none => simp [eq_comm]
  | some ns =>
    obtain ⟨⟨f, r⟩, hrun, rfl⟩ := Option.map_eq_some_iff.mp hparse
    obtain ⟨d, rfl⟩ := exists_division hrun
    simp [Forest.nodes]

/-- Reading fails only on what is no definition without its margin. -/
theorem FunctionDef.parse_eq_error_iff {text : String} {e : ReadError} :
    parse text = .error e ↔ e = .noMatch ∧ parse? .source (Text.dedent text) = none := by
  rw [← root_eq_error_iff]
  constructor
  · intro h
    -- The header of a tree is always read, so what failed is the grammar.
    have hnone : ¬ ∃ n, root (Text.dedent text) = .ok n := by
      rw [← exists_parse_iff, ← exists_eq_error_iff]
      exact ⟨e, h⟩
    obtain ⟨e', he⟩ := exists_eq_error_iff.mpr hnone
    have hparse : parse text = .error e' := bind_eq_error.mpr (.inl he)
    rw [he, ← Except.error.inj (hparse.symm.trans h)]
  · exact fun h => bind_eq_error.mpr (.inl h)

/-- Decorators are stripped off every definition. -/
theorem stripDecorators_eq_error_iff {text : String} {e : ReadError} :
    stripDecorators text = .error e ↔ e = .noMatch ∧ parse? .source text = none := by
  rw [← root_eq_error_iff]
  unfold stripDecorators
  rw [bind_eq_error]
  refine or_iff_left ?_
  rintro ⟨n, -, h⟩
  split at h <;> cases h

/-! ## Lines -/

/-- A definition is cut at a line. -/
theorem pos_of_lineBehindDecorators? {text : String} {n : Node Rule} (h : root text = .ok n)
    {line : Nat} (hline : lineBehindDecorators? n.children = some line) : 1 ≤ line := by
  obtain ⟨d, rfl⟩ := root_eq_ok_iff.mp h
  rw [d.lineBehindDecorators?_root] at hline
  split at hline
  · simp at hline
  · rw [← Option.some.inj hline]
    exact Nat.le_add_left _ _

/-! ## Names -/

/-- The rule matches the text from end to end, as one node. -/
def MatchesInFull (rule : Rule) (text : String) : Prop :=
  ∃ n, parse? rule text = some [n] ∧ n.rule = rule ∧ n.text = text

/-- An identifier is matched in full as a name. -/
theorem matchesInFull_of_isName {s : String} (h : isName s.toList = true) :
    MatchesInFull .identifier s := by
  have hrest := restOf_identifierText_append (u := []) h (many_of_none rfl)
  rw [List.append_nil] at hrest
  obtain ⟨⟨f, r⟩, hrun, rfl⟩ := Option.map_eq_some_iff.mp hrest
  have htext : s.toList = f.text := by
    rw [lossless_run _ _ _ _ hrun, List.append_nil]
  refine ⟨⟨.identifier, .origin, f⟩, ?_, rfl, ?_⟩
  · have hnode : identifier.run s.toList = some (.node .identifier f .nil, []) :=
      run_node.mpr ⟨f, hrun, rfl⟩
    rw [parse?, Rule.pattern, hnode]
    rfl
  · rw [Node.text, Node.chars, ← htext, String.ofList_toList]

/-! ## Annotations and default values -/

/-- The texts of a parameter have no white space around them. -/
structure WrittenParameter.Trimmed (p : WrittenParameter) : Prop where
  hint : ∀ t ∈ p.hint?, IsTrimmed t
  default : ∀ t ∈ p.default?, IsTrimmed t

/-- The texts of a parameter that is read have no white space around them. -/
theorem WrittenParameter.trimmed_of_ofNodes {ns : List (Node Rule)} {p : WrittenParameter}
    (h : ofNodes ns = .ok p) : p.Trimmed := by
  refine foldlM_invariant (P := Trimmed) ?_ ⟨by simp, by simp⟩ h
  intro q n _ q' hq hadd
  unfold addNode at hadd
  split at hadd
  · obtain rfl := Except.ok.inj hadd
    exact ⟨hq.hint, hq.default⟩
  · obtain rfl := Except.ok.inj hadd
    refine ⟨fun t ht => ?_, hq.default⟩
    rw [← Option.some.inj ht]
    exact Text.isTrimmed_trim n.text
  · obtain rfl := Except.ok.inj hadd
    refine ⟨hq.hint, fun t ht => ?_⟩
    rw [← Option.some.inj ht]
    exact Text.isTrimmed_trim n.text
  · simp at hadd

/-- The texts of an item that is read have no white space around them. -/
theorem Item.trimmed_of_ofNode {n : Node Rule} {i : Item} (h : ofNode n = .ok i)
    {p : WrittenParameter} (hp : i.parameter? = some p) : p.Trimmed := by
  have hnodes : WrittenParameter.ofNodes n.children = .ok p → p.Trimmed :=
    WrittenParameter.trimmed_of_ofNodes
  unfold ofNode at h
  split at h
  all_goals grind [map_eq_ok, parameter?]

/-- The texts of the parameters of a definition have no white space around them. -/
theorem FunctionDef.trimmed_of_parse {text : String} {f : FunctionDef} (h : parse text = .ok f) :
    ∀ p ∈ f.parameters, p.Trimmed := by
  obtain ⟨-, -, items, hitems, hparameters⟩ := parse_spec h
  obtain ⟨n, -, hmap⟩ := bind_eq_ok.mp hitems
  intro p hp
  rw [hparameters] at hp
  obtain ⟨i, hi, hparameter⟩ := Parameter.exists_item_of_mem_ofItems hp
  obtain ⟨m, -, hread⟩ := exists_of_mem_mapM hmap hi
  exact Item.trimmed_of_ofNode hread hparameter

/-! ## Definitions -/

/-- What is known of a definition that was read: its name and the names of its parameters are
identifiers, its header stands on a line, and the texts of its parameters are trimmed. -/
structure FunctionDef.WellRead (f : FunctionDef) : Prop where
  name : MatchesInFull .identifier f.name
  defLine : 1 ≤ f.defLine
  parameters : ∀ p ∈ f.parameters, MatchesInFull .identifier p.name ∧ p.Trimmed

/-- A definition that is read is well read. -/
theorem FunctionDef.wellRead_of_parse {text : String} {f : FunctionDef} (h : parse text = .ok f) :
    f.WellRead := by
  obtain ⟨hname, hnames⟩ := isName_of_parse h
  obtain ⟨-, ⟨d, hline⟩, -⟩ := parse_spec h
  refine ⟨matchesInFull_of_isName hname, ?_, fun p hp =>
    ⟨matchesInFull_of_isName (hnames p hp), trimmed_of_parse h p hp⟩⟩
  rw [hline]
  exact Nat.le_add_left _ _

/-- **Reading is safe.** Reading a definition and stripping its decorators fail only on a text that
does not match the grammar: there is no tree without a definition, and no node that a reader does
not know. The line that a text is cut at is never 0, and neither is that of a definition that was
read; such a definition has identifiers for names, and no white space around the texts of its
parameters. -/
theorem reading_safe (text : String) :
    (∀ e, FunctionDef.parse text = .error e ↔
      e = .noMatch ∧ parse? .source (Text.dedent text) = none) ∧
    (∀ e, stripDecorators text = .error e ↔ e = .noMatch ∧ parse? .source text = none) ∧
    (∀ n, root text = .ok n → ∀ line, lineBehindDecorators? n.children = some line → 1 ≤ line) ∧
    ∀ f, FunctionDef.parse text = .ok f → f.WellRead :=
  ⟨fun _ => FunctionDef.parse_eq_error_iff, fun _ => stripDecorators_eq_error_iff,
    fun _ h _ => pos_of_lineBehindDecorators? h, fun _ => FunctionDef.wellRead_of_parse⟩

/-- A decorated definition with both markers and white space of many kinds around its texts; one of
its annotations is nothing else. -/
def looseSource : String :=
  "  @d\n  async def ñ_1(a :\u3000 int\u00a0 = ( 1 ) , /, *args: x , k = 'y' \t, z: \u2003=\u20030 ):\n    pass\n"

/-- It is read, and cut at its second line. -/
theorem reading_safe_of_looseSource : ∃ f n, FunctionDef.parse looseSource = .ok f ∧
    root looseSource = .ok n ∧ lineBehindDecorators? n.children = some 2 ∧ 1 ≤ 2 ∧
    (f.name, f.defLine, f.parameters.map fun p => (p.name, p.hint?, p.default?)) =
      ("ñ_1", 2, [("a", some "int", some "( 1 )"), ("args", some "x", none),
        ("k", none, some "'y'"), ("z", some "", some "0")]) ∧ f.WellRead := by
  obtain ⟨f, hparse, hname, hdef, hparameters⟩ : ∃ f, FunctionDef.parse looseSource = .ok f ∧
      f.name = "ñ_1" ∧ f.defLine = 2 ∧
      f.parameters.map (fun p => (p.name, p.hint?, p.default?)) =
        [("a", some "int", some "( 1 )"), ("args", some "x", none), ("k", none, some "'y'"),
          ("z", some "", some "0")] := by
    rw [looseSource, FunctionDef.parse_ofList]
    exact exists_eq_ok (by decide +kernel)
  obtain ⟨n, hroot, hline⟩ : ∃ n, root looseSource = .ok n ∧
      lineBehindDecorators? n.children = some 2 := by
    rw [looseSource, root_ofList]
    exact exists_eq_ok (by decide +kernel)
  obtain ⟨-, -, hcut, hread⟩ := reading_safe looseSource
  refine ⟨f, n, hparse, hroot, hline, hcut n hroot 2 hline, ?_, hread f hparse⟩
  rw [hname, hdef, hparameters]

end UdfBridge.Source
