import Mathlib.Data.List.Forall2
import UdfBridge.Proofs.Source.Division

/-!
# Outlines of trees

The outline of a forest has its nodes, and of its characters only those of words: of names, and of
the word that makes a coroutine. Two trees with one outline say the same but for the texts of their
expressions: they have the same nodes inside each other, and the same words (`forall₂_nodes`).
-/

namespace UdfBridge.Source

open Grammar
open Text (Position)

/-- The rules of the nodes that are words. -/
def wordRules : List Rule := [.identifier, .functionName, .asyncKeyword]

/-- The nodes of a forest, with the characters of words. -/
def outline : Forest Rule → Forest Rule
  | .nil => .nil
  | .char _ next => outline next
  | .node rule inner next =>
    .node rule (if rule ∈ wordRules then inner else outline inner) (outline next)

/-- The outline of two forests is that of the first and then that of the second. -/
theorem outline_append (f g : Forest Rule) : outline (f ++ g) = outline f ++ outline g := by
  induction f with
  | nil => rfl
  | char c next ih => exact ih
  | node rule inner next _ ih => rw [Forest.node_append, outline, outline, ih, Forest.node_append]

/-- A forest without nodes has an empty outline. -/
theorem outline_eq_nil {f : Forest Rule} (h : f.topRules = []) : outline f = .nil := by
  induction f with
  | nil => rfl
  | char c next ih => exact ih h
  | node rule inner next _ _ => simp [Forest.topRules] at h

/-- A match without nodes has nothing in its outline. -/
theorem outline_run {p : Pattern Rule} (hrules : p.topRules = []) {s r : List Char}
    {f : Forest Rule} (h : p.run s = some (f, r)) : outline f = .nil :=
  outline_eq_nil (List.subset_nil.mp (hrules ▸ Pattern.topRules_run p s f r h))

/-- A repetition of a pattern without nodes has an empty outline. -/
theorem outline_many {p : Pattern Rule} (hrules : p.topRules = []) (s : List Char) :
    outline (many p.run s).1 = .nil :=
  outline_run (p := .star p) hrules Pattern.run_star

/-- The forest of a text without nodes has an empty outline. -/
theorem outline_plainForest (s : List Char) : outline (plainForest s) = .nil := by
  induction s with
  | nil => rfl
  | cons c s ih => exact ih

/-! ## Nodes -/

/-- Two nodes with one outline: a word is the same in both. -/
structure SameOutline (n m : Node Rule) : Prop where
  rule : m.rule = n.rule
  word : n.rule ∈ wordRules → m.inner = n.inner
  inner : outline m.inner = outline n.inner

/-- A word has the same text in nodes with one outline. -/
theorem SameOutline.text {n m : Node Rule} (h : SameOutline n m) (hword : n.rule ∈ wordRules) :
    m.text = n.text := by
  rw [Node.text, Node.chars, h.word hword]
  rfl

/-- The outermost nodes of a forest, without their places. -/
def outermost : Forest Rule → List (Rule × Forest Rule)
  | .nil => []
  | .char _ next => outermost next
  | .node rule inner next => (rule, inner) :: outermost next

/-- What an outline keeps of a node. -/
def keptOf (n : Node Rule) : Rule × Forest Rule :=
  (n.rule, if n.rule ∈ wordRules then n.inner else outline n.inner)

/-- What an outline keeps of the nodes of a forest are the outermost nodes of its outline. -/
theorem map_keptOf_nodes (f : Forest Rule) (p : Position) :
    (f.nodes p).map keptOf = outermost (outline f) := by
  induction f generalizing p with
  | nil => rfl
  | char c next ih => exact ih _
  | node rule inner next _ ih =>
    rw [Forest.nodes, List.map_cons, ih, outline, outermost]
    rfl

/-- Nodes of which an outline keeps the same have one outline. -/
theorem sameOutline_of_keptOf {n m : Node Rule} (h : keptOf n = keptOf m) : SameOutline n m := by
  obtain ⟨hrule, hinner⟩ := Prod.mk.inj h
  rw [← hrule] at hinner
  by_cases hword : n.rule ∈ wordRules
  · rw [if_pos hword, if_pos hword] at hinner
    exact ⟨hrule.symm, fun _ => hinner.symm, by rw [hinner]⟩
  · rw [if_neg hword, if_neg hword] at hinner
    exact ⟨hrule.symm, fun h => absurd h hword, hinner.symm⟩

/-- Forests with one outline have the same nodes, wherever they stand. -/
theorem forall₂_nodes {f g : Forest Rule} (h : outline f = outline g) (p q : Position) :
    List.Forall₂ SameOutline (f.nodes p) (g.nodes q) := by
  have hkept : (f.nodes p).map keptOf = (g.nodes q).map keptOf := by
    rw [map_keptOf_nodes, map_keptOf_nodes, h]
  rw [← List.forall₂_eq_eq_eq, List.forall₂_map_left_iff, List.forall₂_map_right_iff] at hkept
  exact hkept.imp fun _ _ => sameOutline_of_keptOf

/-- The children of nodes with one outline have one outline, each by each. -/
theorem SameOutline.children {n m : Node Rule} (h : SameOutline n m) :
    List.Forall₂ SameOutline n.children m.children :=
  forall₂_nodes h.inner.symm _ _

section Lists

variable {ns ms : List (Node Rule)}

/-- Of nodes with one outline, those of a rule have one outline. -/
theorem forall₂_filter_rule (rule : Rule) (h : List.Forall₂ SameOutline ns ms) :
    List.Forall₂ SameOutline (ns.filter (·.rule = rule)) (ms.filter (·.rule = rule)) :=
  List.rel_filter (fun n m hnm => by simp [hnm.rule]) h

/-- Words are the same in nodes with one outline. -/
theorem map_text_filter_rule {rule : Rule} (hrule : rule ∈ wordRules)
    (h : List.Forall₂ SameOutline ns ms) :
    (ns.filter (·.rule = rule)).map Node.text = (ms.filter (·.rule = rule)).map Node.text := by
  induction h with
  | nil => rfl
  | @cons n m ns ms hnm _ ih =>
    by_cases hn : n.rule = rule
    · rw [List.filter_cons_of_pos (by simpa using hn),
        List.filter_cons_of_pos (by simpa using hnm.rule.trans hn), List.map_cons, List.map_cons, ih,
        hnm.text (hn ▸ hrule)]
    · rw [List.filter_cons_of_neg (by simpa using hn),
        List.filter_cons_of_neg (by simpa [hnm.rule] using hn), ih]

end Lists

end UdfBridge.Source
