import UdfBridge.Proofs.Grammar.Nodes
import UdfBridge.Proofs.Source.Heading

/-!
# Every definition is read

The readers of a tree refuse a node in a place that they do not know. The grammar puts no node into
such a place (`placed_source`), so every text that is a definition without its margin is read
(`FunctionDef.exists_parse_iff`).
-/

namespace UdfBridge.Source

open Grammar
open Grammar.Pattern

/-- The rules of the nodes that the readers know directly inside a node of the given rule. -/
def places : Rule → List Rule
  | .defHeader => [.asyncKeyword, .functionName, .parameters, .returnHint]
  | .parameters => [.positionalMarker, .keywordMarker, .parameter, .varPositional, .varKeyword]
  | .parameter | .varPositional | .varKeyword => [.identifier, .hintExpr, .defaultExpr]
  | _ => Rule.all

/-- The nodes directly inside a node are in places that the readers know. -/
def Placed (rule : Rule) (f : Forest Rule) : Prop :=
  f.topRules ⊆ places rule

/-- The grammar puts no node into an unknown place. -/
theorem placed_source {s r : List Char} {f : Forest Rule} (h : source.run s = some (f, r)) :
    f.Each Placed := by
  have hplaces : ∀ x ∈ source.named, x.2.topRules ⊆ places x.1 := by decide
  exact each_run (fun x hx s f r hrun =>
    List.Subset.trans (topRules_run x.2 s f r hrun) (hplaces x hx)) s f r h

section Readers

variable {n : Node Rule}

/-- The children of a node are in places that the readers know. -/
theorem rule_mem_places (h : Placed n.rule n.inner) {m : Node Rule} (hm : m ∈ n.children) :
    m.rule ∈ places n.rule :=
  h (rule_mem_topRules hm)

/-- Every node in a parameter says something of it that can be read. -/
theorem WrittenParameter.exists_addNode (hn : n.rule ∈ places .parameter) (p : WrittenParameter) :
    ∃ q, p.addNode n = .ok q := by
  unfold addNode
  rcases (by simpa [places] using hn :
    n.rule = .identifier ∨ n.rule = .hintExpr ∨ n.rule = .defaultExpr) with h | h | h <;>
    exact ⟨_, by rw [h]⟩

/-- Every node in a list of parameters is an item that can be read. -/
theorem Item.exists_ofNode (hn : n.rule ∈ places .parameters) (hself : Placed n.rule n.inner) :
    ∃ i, ofNode n = .ok i := by
  have hread : places n.rule = places .parameter →
      ∃ p, WrittenParameter.ofNodes n.children = .ok p := fun hplaces =>
    exists_foldlM_eq_ok (fun p m hm =>
      WrittenParameter.exists_addNode (hplaces ▸ rule_mem_places hself hm) p) _
  unfold ofNode
  rcases (by simpa [places] using hn : n.rule = .positionalMarker ∨ n.rule = .keywordMarker ∨
    n.rule = .parameter ∨ n.rule = .varPositional ∨ n.rule = .varKeyword) with h | h | h | h | h
  · exact ⟨.slash, by rw [h]⟩
  · exact ⟨.star, by rw [h]⟩
  all_goals
    obtain ⟨p, hp⟩ := hread (h ▸ rfl)
    exact ⟨_, by rw [h, hp]; rfl⟩

/-- Every list of items in their places can be read. -/
theorem Parameter.exists_ofNodes {ns : List (Node Rule)}
    (hns : ∀ n ∈ ns, n.rule ∈ places .parameters ∧ Placed n.rule n.inner) :
    ∃ ps, ofNodes ns = .ok ps := by
  obtain ⟨items, hitems⟩ := exists_mapM_eq_ok fun n hn =>
    Item.exists_ofNode (hns n hn).1 (hns n hn).2
  exact ⟨_, map_eq_ok.mpr ⟨items, hitems, rfl⟩⟩

/-- Every node in a header says something of the definition that can be read. -/
theorem FunctionDef.exists_addHeaderNode (hn : n.rule ∈ places .defHeader)
    (hself : Placed n.rule n.inner) (hinner : n.inner.Each Placed) (d : FunctionDef) :
    ∃ d', d.addHeaderNode n = .ok d' := by
  unfold addHeaderNode
  rcases (by simpa [places] using hn : n.rule = .asyncKeyword ∨ n.rule = .functionName ∨
    n.rule = .parameters ∨ n.rule = .returnHint) with h | h | h | h
  · exact ⟨_, by rw [h]⟩
  · exact ⟨_, by rw [h]⟩
  · obtain ⟨ps, hps⟩ := Parameter.exists_ofNodes fun m hm =>
      ⟨h ▸ rule_mem_places hself hm, (hinner.of_mem_nodes hm).1⟩
    exact ⟨{ d with parameters := ps }, by rw [h, hps]; rfl⟩
  · exact ⟨d, by rw [h]⟩

end Readers

/-- A text is read as it is exactly if it is a definition. -/
theorem FunctionDef.exists_ofSource_iff (source : String) :
    (∃ f, ofSource source = .ok f) ↔ ∃ n, root source = .ok n := by
  constructor
  · rintro ⟨f, hf⟩
    obtain ⟨n, hn, -⟩ := bind_eq_ok.mp hf
    exact ⟨n, hn⟩
  · rintro ⟨n, hn⟩
    obtain ⟨d, -⟩ := root_eq_ok_iff.mp hn
    obtain ⟨-, hroot, -⟩ := placed_source d.run_source
    obtain ⟨hheader, hinner, -⟩ := hroot.of_append.2
    rw [ofSource_of_division d]
    -- The nodes of the tree are where the grammar puts them, so the readers find what they expect.
    refine exists_foldlM_eq_ok (fun f n hn => ?_) _
    obtain ⟨hself, hnodes⟩ := hinner.of_mem_nodes hn
    exact exists_addHeaderNode (hheader (rule_mem_topRules hn)) hself hnodes f

/-- A text is read exactly if it is a definition without its margin. -/
theorem FunctionDef.exists_parse_iff (text : String) :
    (∃ f, parse text = .ok f) ↔ ∃ n, root (Text.dedent text) = .ok n :=
  exists_ofSource_iff (Text.dedent text)

end UdfBridge.Source
