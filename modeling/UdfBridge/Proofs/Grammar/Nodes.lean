import UdfBridge.Proofs.Grammar.Match

/-!
# What the nodes of a match hold

A node holds a match of the pattern that its rule names. `Pattern.named` lists the rules and
patterns of all nodes that a match can have, at any depth, and `Pattern.each_run` carries what is
known of the matches of these patterns over to the nodes of a match.
-/

namespace UdfBridge.Grammar

variable {ρ : Type} {P : ρ → Forest ρ → Prop}

/-- Of every node, at any depth, `P` holds with the rule of the node and the forest inside it. -/
def Forest.Each (P : ρ → Forest ρ → Prop) : Forest ρ → Prop
  | nil => True
  | char _ next => next.Each P
  | node rule inner next => P rule inner ∧ inner.Each P ∧ next.Each P

/-- What holds of each node in two forests holds of each node in both side by side. -/
theorem Forest.Each.append {f g : Forest ρ} (hf : f.Each P) (hg : g.Each P) : (f ++ g).Each P := by
  induction f with
  | nil => exact hg
  | char c next ih => exact ih hf
  | node rule inner next _ ih => exact ⟨hf.1, hf.2.1, ih hf.2.2⟩

/-- What holds of each node in two forests side by side holds of each node in either. -/
theorem Forest.Each.of_append {f g : Forest ρ} (h : (f ++ g).Each P) : f.Each P ∧ g.Each P := by
  induction f with
  | nil => exact ⟨trivial, h⟩
  | char c next ih => exact ih h
  | node rule inner next _ ih =>
    obtain ⟨hself, hinner, hrest⟩ := h
    obtain ⟨hnext, hg⟩ := ih hrest
    exact ⟨⟨hself, hinner, hnext⟩, hg⟩

/-- What follows from what holds of each node holds of each node too. -/
theorem Forest.Each.mono {Q : ρ → Forest ρ → Prop} (h : ∀ rule f, P rule f → Q rule f)
    {f : Forest ρ} (hf : f.Each P) : f.Each Q := by
  induction f with
  | nil => trivial
  | char c next ih => exact ih hf
  | node rule inner next ihinner ih => exact ⟨h _ _ hf.1, ihinner hf.2.1, ih hf.2.2⟩

/-- What holds of every node holds of those that are listed, and of the nodes inside them. -/
theorem Forest.Each.of_mem_nodes {f : Forest ρ} (hf : f.Each P) {p : Text.Position} {n : Node ρ}
    (hn : n ∈ f.nodes p) : P n.rule n.inner ∧ n.inner.Each P := by
  induction f generalizing p with
  | nil => simp [nodes] at hn
  | char c next ih => exact ih hf hn
  | node rule inner next _ ih =>
    obtain ⟨hself, hinner, hnext⟩ := hf
    rcases List.mem_cons.mp hn with rfl | hn
    · exact ⟨hself, hinner⟩
    · exact ih hnext hn

/-! ## The places of nodes -/

/-- A node at any depth, with all of the text that stands before it. -/
structure Spot (ρ : Type) where
  /-- The text before the node. -/
  before : List Char
  /-- The rule that names the node. -/
  rule : ρ
  /-- What the node's pattern matched. -/
  inner : Forest ρ
deriving DecidableEq

/-- The node with more text before it. -/
def Spot.behind (a : List Char) (x : Spot ρ) : Spot ρ :=
  { x with before := a ++ x.before }

/-- The nodes of a forest at any depth. -/
def Forest.spots : Forest ρ → List (Spot ρ)
  | nil => []
  | char c next => next.spots.map (Spot.behind [c])
  | node rule inner next =>
    ⟨[], rule, inner⟩ :: (inner.spots ++ next.spots.map (Spot.behind inner.text))

/-- A spot behind two texts is a spot behind the text of both. -/
theorem Spot.behind_behind (a b : List Char) (x : Spot ρ) :
    (x.behind b).behind a = x.behind (a ++ b) := by
  simp [behind]

/-- The nodes of a forest behind another one have its text before them. -/
theorem Forest.spots_append (f g : Forest ρ) :
    (f ++ g).spots = f.spots ++ g.spots.map (Spot.behind f.text) := by
  induction f with
  | nil =>
    have hnil : (Spot.behind [] : Spot ρ → Spot ρ) = id := rfl
    simp [spots, text, hnil]
  | char c next ih =>
    simp only [char_append, spots, text, ih, List.map_append, List.map_map]
    congr 2
  | node rule inner next _ ih =>
    simp only [node_append, spots, text, ih, List.map_append, List.map_map, List.cons_append,
      List.append_assoc]
    -- What stands in front of a spot of the later nodes is the text of this node and of all up to
    -- it.
    congr 4
    exact funext fun x => x.behind_behind inner.text next.text

/-- A spot in two forests is a spot in the first, or one in the second behind the text of the
first. -/
theorem Forest.mem_spots_append {f g : Forest ρ} {x : Spot ρ} :
    x ∈ (f ++ g).spots ↔ x ∈ f.spots ∨ ∃ y ∈ g.spots, y.behind f.text = x := by
  rw [spots_append, List.mem_append, List.mem_map]

/-- What holds of every node holds of those at any depth. -/
theorem Forest.Each.of_mem_spots {f : Forest ρ} (hf : f.Each P) {x : Spot ρ} (hx : x ∈ f.spots) :
    P x.rule x.inner := by
  induction f generalizing x with
  | nil => simp [spots] at hx
  | char c next ih =>
    obtain ⟨y, hy, rfl⟩ := List.mem_map.mp hx
    exact ih (x := y) hf hy
  | node rule inner next ihinner ih =>
    obtain ⟨hself, hinner, hnext⟩ := hf
    rcases List.mem_cons.mp hx with rfl | hx
    · exact hself
    rcases List.mem_append.mp hx with hx | hx
    · exact ihinner hinner hx
    · obtain ⟨y, hy, rfl⟩ := List.mem_map.mp hx
      exact ih (x := y) hnext hy

/-! ## The nodes of a match -/

/-- The rules and patterns of all nodes that a match can have. -/
def Pattern.named : Pattern ρ → List (ρ × Pattern ρ)
  | empty | one _ => []
  | seq p q | orElse p q => p.named ++ q.named
  | star p | notAhead p | balanced p => p.named
  | node rule p => (rule, p) :: p.named

/-- What holds of every match of every named part of a pattern holds of each node that the pattern
builds. -/
theorem Pattern.Builds.each {p : Pattern ρ} {f : Forest ρ} (h : p.Builds f)
    (hp : ∀ x ∈ p.named, ∀ s f r, x.2.run s = some (f, r) → P x.1 f) : f.Each P := by
  induction h with
  | empty | one _ | done | notAhead | closed => trivial
  | seq _ _ ihp ihq =>
    obtain ⟨hp, hq⟩ := List.forall_mem_append.mp hp
    exact (ihp hp).append (ihq hq)
  | left _ ih => exact ih (List.forall_mem_append.mp hp).1
  | right _ ih => exact ih (List.forall_mem_append.mp hp).2
  | more _ _ ihp ihmore | piece _ _ ihp ihmore => exact (ihp hp).append (ihmore hp)
  | node hrun _ ih =>
    obtain ⟨hself, hinner⟩ := List.forall_mem_cons.mp hp
    exact ⟨hself _ _ _ hrun, ih hinner, trivial⟩
  | bracket _ _ ih => exact ih hp

/-- What holds of the matches of all patterns with a name holds of all nodes of a match. -/
theorem Pattern.each_run {p : Pattern ρ}
    (hp : ∀ x ∈ p.named, ∀ s f r, x.2.run s = some (f, r) → P x.1 f) (s : List Char) (f : Forest ρ)
    (r : List Char) (h : p.run s = some (f, r)) : f.Each P :=
  (builds_run h).each hp

/-- Whether every match of the pattern has an outermost node of `rule`. -/
def Pattern.alwaysMarks [DecidableEq ρ] (rule : ρ) : Pattern ρ → Bool
  | empty | one _ | star _ | notAhead _ | balanced _ => false
  | seq p q => p.alwaysMarks rule || q.alwaysMarks rule
  | orElse p q => p.alwaysMarks rule && q.alwaysMarks rule
  | node r _ => r = rule

/-- A pattern that always marks a rule has an outermost node of it in every match. -/
theorem Pattern.mem_topRules_of_alwaysMarks [DecidableEq ρ] {rule : ρ} {p : Pattern ρ}
    (hp : p.alwaysMarks rule = true) {s r : List Char} {f : Forest ρ}
    (h : p.run s = some (f, r)) : rule ∈ f.topRules := by
  induction p generalizing s f r with
  | empty | one _ | star _ | notAhead _ | balanced _ => simp [alwaysMarks] at hp
  | seq p q ihp ihq =>
    obtain ⟨f₁, r₁, f₂, h₁, h₂, rfl⟩ := run_seq.mp h
    rw [Forest.topRules_append, List.mem_append]
    exact (Bool.or_eq_true_iff.mp hp).imp (fun hp => ihp hp h₁) fun hq => ihq hq h₂
  | orElse p q ihp ihq =>
    obtain ⟨hp, hq⟩ := Bool.and_eq_true_iff.mp hp
    rcases run_orElse.mp h with h | ⟨-, h⟩
    · exact ihp hp h
    · exact ihq hq h
  | node r p _ =>
    obtain ⟨g, -, rfl⟩ := run_node.mp h
    exact List.mem_singleton.mpr (of_decide_eq_true hp).symm

end UdfBridge.Grammar
