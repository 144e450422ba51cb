import UdfBridge.Text.Line

/-!
# What a pattern matched

A `Forest` is the matched text with the named nodes marked in it: a sequence of characters and
nodes, where each node holds a forest of its own. It is lossless, for `Forest.text` gives the
matched text back, and it needs no positions: `Forest.nodes` computes them from the place where
the match starts, as it lists the outermost nodes with their texts and children.
-/

namespace UdfBridge.Grammar

open Text (Position)

/-- A matched text with the nodes marked in it, each named by a rule of `ρ`. -/
inductive Forest (ρ : Type) where
  | nil
  /-- A character that belongs to no node of this forest, and what follows it. -/
  | char (c : Char) (next : Forest ρ)
  /-- A node that `rule` names, the forest inside it, and what follows it. -/
  | node (rule : ρ) (inner next : Forest ρ)
deriving DecidableEq, Repr, Inhabited

namespace Forest

variable {ρ : Type}

/-- The matched text. -/
def text : Forest ρ → List Char
  | nil => []
  | char c next => c :: next.text
  | node _ inner next => inner.text ++ next.text

/-- One forest behind another. -/
def append : Forest ρ → Forest ρ → Forest ρ
  | nil, g => g
  | char c next, g => char c (next.append g)
  | node rule inner next, g => node rule inner (next.append g)

instance : Append (Forest ρ) := ⟨append⟩

/-- In front of an empty forest nothing is added. -/
@[simp] theorem nil_append (g : Forest ρ) : nil ++ g = g := rfl

/-- A forest behind another one whose first part is a character. -/
@[simp] theorem char_append (c : Char) (f g : Forest ρ) : char c f ++ g = char c (f ++ g) := rfl

/-- A forest behind another one whose first part is a node. -/
@[simp] theorem node_append (rule : ρ) (inner f g : Forest ρ) :
    node rule inner f ++ g = node rule inner (f ++ g) := rfl

/-- Behind an empty forest nothing is added. -/
@[simp] theorem append_nil (f : Forest ρ) : f ++ nil = f := by
  induction f with
  | nil => rfl
  | char c next ih => simp [ih]
  | node rule inner next _ ih => simp [ih]

/-- Forests are put behind one another in any grouping. -/
theorem append_assoc (f g h : Forest ρ) : f ++ g ++ h = f ++ (g ++ h) := by
  induction f with
  | nil => rfl
  | char c next ih => simp [ih]
  | node rule inner next _ ih => simp [ih]

/-- The text of two forests is that of the first and then that of the second. -/
@[simp] theorem text_append (f g : Forest ρ) : (f ++ g).text = f.text ++ g.text := by
  induction f with
  | nil => rfl
  | char c next ih => simp [text, ih]
  | node rule inner next _ ih => simp [text, ih]

end Forest

/-- A node in its place: its rule, where it starts, and the forest inside it. -/
structure Node (ρ : Type) where
  /-- The rule that names the node. -/
  rule : ρ
  /-- Where the node starts. -/
  start : Position
  /-- What the node's pattern matched. -/
  inner : Forest ρ
deriving DecidableEq, Repr, Inhabited

/-- The outermost nodes of a forest whose text stands at `p`, in order. -/
def Forest.nodes {ρ : Type} : Forest ρ → Position → List (Node ρ)
  | nil, _ => []
  | char c next, p => next.nodes (p.next c)
  | node rule inner next, p => ⟨rule, p, inner⟩ :: next.nodes (p.advance inner.text)

/-- The nodes of two adjoining forests are those of the first and then those of the second. -/
theorem Forest.nodes_append {ρ : Type} (f g : Forest ρ) (p : Position) :
    (f ++ g).nodes p = f.nodes p ++ g.nodes (p.advance f.text) := by
  induction f generalizing p with
  | nil => rfl
  | char c next ih => simp [nodes, text, ih]
  | node rule inner next _ ih => simp [nodes, text, ih]

namespace Node

variable {ρ : Type}

/-- The text that the node spans. -/
def chars (n : Node ρ) : List Char := n.inner.text

/-- The text that the node spans. -/
def text (n : Node ρ) : String := .ofList n.chars

/-- Where the node ends. -/
def stop (n : Node ρ) : Position := n.start.advance n.chars

/-- The nodes directly inside the node, in order. -/
def children (n : Node ρ) : List (Node ρ) := n.inner.nodes n.start

end Node

end UdfBridge.Grammar
