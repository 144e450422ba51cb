import UdfBridge.Grammar.Pattern
import UdfBridge.Proofs.Text.Slice

/-!
# Trees in their text

The places of the nodes of a forest are computed from where the forest stands. So a node of a match
starts behind all of the text before it, and the nodes inside it and beside it are placed along its
text (`exists_place`). `WellPlaced` says what a reader of a tree relies on, of the nodes at any
depth: they are slices of the text, they lie inside of one another, and side by side they follow one
another. `wellPlaced_of_run` shows it for the nodes of every match.
-/

namespace UdfBridge.Grammar

open Text (Position IsSlice)

variable {ρ : Type}

/-! ## Nodes along a text -/

/-- The text of a forest goes on before and behind each of its nodes. -/
theorem Forest.exists_of_mem_nodes {f : Forest ρ} {p : Position} {n : Node ρ}
    (h : n ∈ f.nodes p) : ∃ a b, f.text = a ++ (n.chars ++ b) ∧ n.start = p.advance a := by
  induction f generalizing p with
  | nil => simp [nodes] at h
  | char c next ih =>
    obtain ⟨a, b, htext, hstart⟩ := ih h
    exact ⟨c :: a, b, by rw [text, htext, List.cons_append], hstart⟩
  | node rule inner next _ ih =>
    rcases List.mem_cons.mp h with rfl | h
    · exact ⟨[], next.text, rfl, rfl⟩
    · obtain ⟨a, b, htext, hstart⟩ := ih h
      refine ⟨inner.text ++ a, b, ?_, ?_⟩
      · rw [text, htext, List.append_assoc]
      · rw [hstart, Position.advance_append]

/-- A node of a forest starts where an earlier one ends, or some text behind that place. -/
theorem Forest.pairwise_advance (f : Forest ρ) (p : Position) :
    (f.nodes p).Pairwise fun n m => ∃ a, m.start = n.stop.advance a := by
  induction f generalizing p with
  | nil => exact .nil
  | char c next ih => exact ih _
  | node rule inner next _ ih =>
    refine .cons (fun m hm => ?_) (ih _)
    obtain ⟨a, -, -, hstart⟩ := exists_of_mem_nodes hm
    exact ⟨a, hstart⟩

/-! ## Nodes at any depth -/

/-- The nodes `ns` and the nodes inside them, at any depth. -/
inductive Within (ns : List (Node ρ)) : Node ρ → Prop where
  /-- One of the nodes itself. -/
  | outermost {n : Node ρ} (h : n ∈ ns) : Within ns n
  /-- A node directly inside such a node. -/
  | inside {m n : Node ρ} (hm : Within ns m) (h : n ∈ m.children) : Within ns n

/-- The nodes stand side by side in this order, and none starts before the one in front of it
ends. -/
def SideBySide (ns : List (Node ρ)) : Prop :=
  ns.Pairwise fun n m => n.stop.offset ≤ m.start.offset

/-- The nodes `ns` and all nodes inside them are in their places in `text`. -/
structure WellPlaced (text : String) (ns : List (Node ρ)) : Prop where
  /-- A node starts and ends at boundaries of characters, and its text stands between them. -/
  slice : ∀ n, Within ns n → IsSlice text n.start n.stop n.text
  /-- The nodes directly inside a node lie between its ends. -/
  inside : ∀ m, Within ns m → ∀ n ∈ m.children,
    m.start.offset ≤ n.start.offset ∧ n.stop.offset ≤ m.stop.offset
  /-- The outermost nodes stand side by side. -/
  outermost : SideBySide ns
  /-- The nodes directly inside a node stand side by side. -/
  siblings : ∀ m, Within ns m → SideBySide m.children

/-- The nodes of a forest stand side by side, from any position on. -/
theorem sideBySide_nodes (f : Forest ρ) (p : Position) : SideBySide (f.nodes p) := by
  refine (f.pairwise_advance p).imp fun {n m} h => ?_
  obtain ⟨a, ha⟩ := h
  rw [ha, Position.offset_advance]
  exact Nat.le_add_right _ _

/-- A node at any depth starts behind the text that stands before it. -/
theorem exists_place {s r : List Char} {f : Forest ρ} (h : s = f.text ++ r) {n : Node ρ}
    (hn : Within (f.nodes .origin) n) :
    ∃ a b, s = a ++ (n.chars ++ b) ∧ n.start = Position.origin.advance a := by
  induction hn with
  | outermost hn =>
    obtain ⟨a, b, htext, hstart⟩ := Forest.exists_of_mem_nodes hn
    exact ⟨a, b ++ r, by rw [h, htext]; simp only [List.append_assoc], hstart⟩
  | @inside m n _ hn ih =>
    obtain ⟨a, b, hs, hstart⟩ := ih
    obtain ⟨a', b', htext, hstart'⟩ := Forest.exists_of_mem_nodes hn
    refine ⟨a ++ a', b' ++ b, ?_, ?_⟩
    · rw [hs, Node.chars, htext]
      simp only [List.append_assoc]
    · rw [hstart', hstart, Position.advance_append]

/-- A node lies between the ends of the node that it is directly inside of. -/
theorem between_of_mem_children {m n : Node ρ} (h : n ∈ m.children) :
    m.start.offset ≤ n.start.offset ∧ n.stop.offset ≤ m.stop.offset := by
  obtain ⟨a, b, htext, hstart⟩ := Forest.exists_of_mem_nodes h
  have hstop : m.stop = n.stop.advance b := by
    rw [Node.stop, Node.stop, Node.chars, htext, hstart, Position.advance_append,
      Position.advance_append]
  rw [hstop, hstart, Position.offset_advance, Position.offset_advance]
  exact ⟨Nat.le_add_right _ _, Nat.le_add_right _ _⟩

/-- The nodes of a match, and all nodes inside them, are in their places. -/
theorem wellPlaced_of_run {p : Pattern ρ} {text : String} {f : Forest ρ} {r : List Char}
    (h : p.run text.toList = some (f, r)) : WellPlaced text (f.nodes .origin) := by
  have htext : text.toList = f.text ++ r := p.lossless_run _ _ _ h
  refine ⟨fun n hn => ?_, fun m _ n hn => between_of_mem_children hn, sideBySide_nodes f _,
    fun m _ => sideBySide_nodes m.inner m.start⟩
  obtain ⟨a, b, hs, hstart⟩ := exists_place htext hn
  rw [Node.stop, hstart]
  exact Text.isSlice_advance hs

end UdfBridge.Grammar
