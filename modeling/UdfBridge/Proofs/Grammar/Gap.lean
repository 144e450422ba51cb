import Mathlib.Computability.Language
import UdfBridge.Proofs.Grammar.Match
import UdfBridge.Proofs.Grammar.Tree

/-!
# What stands between nodes

A pattern has a language, the words that its matches can have for texts
(`Pattern.text_mem_language`). It leaves open what the order of choices and the text behind a match
rule out.

Between the nodes of a forest stands the text that belongs to none of them. `Spaced L` says that
this text is made of words of `L`, before the first node, between two nodes and behind the last one;
it holds of forests put together if it holds of each (`Spaced.append`), and so of matches of patterns
put together. `Spaced.of_mem_gaps` finds the words in the text, between the places where nodes end
and start.
-/

namespace UdfBridge.Grammar

open Computability
open Text (Position IsSlice)

variable {ρ : Type}

/-! ## Words -/

/-- The words that the matches of a pattern can have for texts. Nothing is said of what stands
between brackets. -/
def Pattern.language : Pattern ρ → Language Char
  | empty | notAhead _ => 1
  | one accepts => {w | ∃ c, accepts c = true ∧ w = [c]}
  | seq p q => p.language * q.language
  | orElse p q => p.language + q.language
  | star p => p.language∗
  | node _ p => p.language
  | balanced _ => ⊤

/-- A word and then words of a language make up words of the language. -/
theorem append_mem_kstar {L : Language Char} {v w : List Char} (hv : v ∈ L) (hw : w ∈ L∗) :
    v ++ w ∈ L∗ := by
  have hle : L * L∗ ≤ L∗ := mul_kstar_le_kstar
  exact hle (Language.append_mem_mul hv hw)

/-- The text of a forest that a pattern builds is a word of the pattern's language. The induction is
on the forest's construction. -/
theorem Pattern.Builds.text_mem_language {p : Pattern ρ} {f : Forest ρ} (h : p.Builds f) :
    f.text ∈ p.language := by
  induction h with
  | empty | notAhead => exact Language.nil_mem_one
  | one hc => exact ⟨_, hc, rfl⟩
  | seq _ _ ihp ihq =>
    rw [Forest.text_append]
    exact Language.append_mem_mul ihp ihq
  | left _ ih => exact .inl ih
  | right _ ih => exact .inr ih
  | done => exact Language.nil_mem_kstar _
  | more _ _ ihp ihmore =>
    rw [Forest.text_append]
    exact append_mem_kstar ihp ihmore
  | node _ _ ih =>
    rw [Forest.text, Forest.text, List.append_nil]
    exact ih
  | closed | bracket _ _ _ | piece _ _ _ _ => exact Set.mem_univ _

/-- The text of a match is a word of the pattern. -/
theorem Pattern.text_mem_language {p : Pattern ρ} {s r : List Char} {f : Forest ρ}
    (h : p.run s = some (f, r)) : f.text ∈ p.language :=
  (builds_run h).text_mem_language

/-! ## Words between nodes -/

/-- Before, between and behind the outermost nodes of the forest stand only words of `L`. -/
inductive Spaced (L : Language Char) : Forest ρ → Prop where
  /-- A forest without nodes, which is made of words. -/
  | plain {f : Forest ρ} (hf : f.topRules = []) (hwords : f.text ∈ L∗) : Spaced L f
  /-- A forest that starts with words and a node. -/
  | node {f inner next : Forest ρ} {rule : ρ} (hf : f.topRules = []) (hwords : f.text ∈ L∗)
    (hnext : Spaced L next) : Spaced L (f ++ .node rule inner next)

variable {L : Language Char} {f g : Forest ρ}

/-- Two forests with words of `L` around their nodes have such words around their nodes when they
stand side by side. -/
theorem Spaced.append (hf : Spaced L f) (hg : Spaced L g) : Spaced L (f ++ g) := by
  induction hf with
  | @plain f hf hwords =>
    -- The words in front of the first node of `g` go on those behind the last one of `f`.
    have happend : ∀ {w}, w ∈ L∗ → f.text ++ w ∈ L∗ := fun hw => by
      rw [← kstar_mul_kstar]
      exact Language.append_mem_mul hwords hw
    cases hg with
    | plain hg hwords' =>
      exact .plain (by rw [Forest.topRules_append, hf, hg]; rfl)
        (by rw [Forest.text_append]; exact happend hwords')
    | node hg hwords' hnext =>
      rw [← Forest.append_assoc]
      exact .node (by rw [Forest.topRules_append, hf, hg]; rfl)
        (by rw [Forest.text_append]; exact happend hwords') hnext
  | node hf hwords _ ih =>
    rw [Forest.append_assoc]
    exact .node hf hwords ih

/-- A node with nothing before it. -/
theorem Spaced.node_cons (rule : ρ) (inner : Forest ρ) (hg : Spaced L g) :
    Spaced L (.node rule inner g) :=
  .node (f := .nil) rfl (Language.nil_mem_kstar L) hg

/-- There is nothing around the nodes of an empty forest. -/
theorem spaced_nil : Spaced L (.nil : Forest ρ) :=
  .plain rfl (Language.nil_mem_kstar L)

/-- In the matches of the pattern only words of `L` stand before, between and behind nodes. -/
def Spaces (L : Language Char) (p : Pattern ρ) : Prop :=
  ∀ s f r, p.run s = some (f, r) → Spaced L f

section Spaces

variable {p q : Pattern ρ}

/-- Words of `L` stand around the nodes of a sequence if they do in both of its parts. -/
theorem Spaces.seq (hp : Spaces L p) (hq : Spaces L q) : Spaces L (.seq p q) := by
  intro s f r h
  obtain ⟨f₁, r₁, f₂, h₁, h₂, rfl⟩ := Pattern.run_seq.mp h
  exact (hp _ _ _ h₁).append (hq _ _ _ h₂)

/-- Words of `L` stand around the nodes of a repetition if they do in what is repeated. -/
theorem Spaces.star (hp : Spaces L p) : Spaces L (.star p) := by
  intro s f r h
  exact Pattern.run_star_induction (Q := fun _ f _ => Spaced L f) (fun _ => spaced_nil)
    (fun hrun _ => (hp _ _ _ hrun).append) h

/-- A pattern that makes a node of its match leaves nothing around it. -/
theorem spaces_node (rule : ρ) (p : Pattern ρ) : Spaces L (.node rule p) := by
  intro s f r h
  obtain ⟨g, -, rfl⟩ := Pattern.run_node.mp h
  exact spaced_nil.node_cons rule g

/-- A pattern without nodes whose matches are words. -/
theorem spaces_of_mem_language (hrules : p.topRules = []) (hp : ∀ w ∈ p.language, w ∈ L) :
    Spaces L p := by
  intro s f r h
  refine .plain (List.subset_nil.mp (hrules ▸ p.topRules_run s f r h)) ?_
  have hword : f.text ∈ L := hp _ (Pattern.text_mem_language h)
  simpa using append_mem_kstar hword (Language.nil_mem_kstar L)

end Spaces

/-! ## The places between nodes -/

/-- Where the text before the first of the nodes, and that between each of them and the next one,
starts and ends, if nothing but that text stands behind `p` before the first one. -/
def gaps (p : Position) : List (Node ρ) → List (Position × Position)
  | [] => []
  | n :: ns => (p, n.start) :: gaps n.stop ns

/-- What stands in the gaps between the nodes of a forest is made of words. -/
theorem Spaced.of_mem_gaps (hf : Spaced L f) {text : String} {a b : List Char}
    (h : text.toList = a ++ (f.text ++ b)) {g : Position × Position}
    (hg : g ∈ gaps (Position.origin.advance a) (f.nodes (Position.origin.advance a))) :
    ∃ w, IsSlice text g.1 g.2 (.ofList w) ∧ w ∈ L∗ := by
  have hnone : ∀ {f : Forest ρ} (p : Position), f.topRules = [] → f.nodes p = [] := by
    intro f p hf
    rw [← List.map_eq_nil_iff (f := Node.rule), f.map_rule_nodes, hf]
  induction hf generalizing a with
  | plain hf _ => simp [hnone _ hf, gaps] at hg
  | @node f inner next rule hf hwords _ ih =>
    rw [Forest.nodes_append, hnone _ hf, List.nil_append, Forest.nodes, gaps] at hg
    rw [Forest.text_append, Forest.text, List.append_assoc] at h
    rcases List.mem_cons.mp hg with rfl | hg
    · -- The first gap ends where the first node starts.
      exact ⟨f.text, Text.isSlice_advance h, hwords⟩
    · refine ih (a := a ++ (f.text ++ inner.text)) ?_ ?_
      · rw [h]
        simp only [List.append_assoc]
      · simpa only [Node.stop, Node.chars, Position.advance_append] using hg

end UdfBridge.Grammar
