import UdfBridge.Proofs.Source.Name
import UdfBridge.Proofs.Source.SealedHeader

/-!
# Reading from text to text

To show that a text is read as it was meant to, the rules are followed one by one, from the text
that stands before a match to the one that stands behind it. `Reads add p u r a b` says that `p`
matches `u` up to `r`, and that the nodes of the match turn the state `a` into `b`, when `add` takes
one node after the other into account. So the states follow one another as the texts do, and there
is one lemma for each way to combine patterns.

Blanks and names end where something else starts. What follows them is known by its first character:
`StartsIn` lists those that it may be, and `Avoids` those that it is not.
-/

namespace UdfBridge.Source

open Grammar
open Grammar.Pattern

variable {β γ : Type} {add : β → Node Rule → Except ReadError β}
  {add' : γ → Node Rule → Except ReadError γ} {a b d : β} {a' b' : γ}
  {p q : Pattern Rule} {s u v r : List Char} {cs : List Char} {f : Forest Rule}

/-- The pattern matches `u` up to `r`, and the nodes of the match turn `a` into `b`, wherever they
stand. -/
def Reads (add : β → Node Rule → Except ReadError β) (p : Pattern Rule) (u r : List Char)
    (a b : β) : Prop :=
  ∃ f, p.run u = some (f, r) ∧ ∀ start, (f.nodes start).foldlM add a = .ok b

/-- A sequence reads what its first part reads and then what its second part reads. -/
theorem Reads.seq (hp : Reads add p u v a b) (hq : Reads add q v r b d) :
    Reads add (seq p q) u r a d := by
  obtain ⟨f, hf, hnodes⟩ := hp
  obtain ⟨g, hg, hrest⟩ := hq
  refine ⟨f ++ g, run_seq.mpr ⟨f, v, g, hf, hg, rfl⟩, fun start => ?_⟩
  rw [Forest.nodes_append, List.foldlM_append, hnodes start]
  exact hrest _

/-- A choice reads what its first pattern reads. -/
theorem Reads.orElse_left (hp : Reads add p u r a b) : Reads add (orElse p q) u r a b := by
  obtain ⟨f, hrun, hnodes⟩ := hp
  exact ⟨f, run_orElse.mpr (.inl hrun), hnodes⟩

/-- A choice reads what its second pattern reads, if the first one is refused. -/
theorem Reads.orElse_right (hnone : p.run u = none) (hq : Reads add q u r a b) :
    Reads add (orElse p q) u r a b := by
  obtain ⟨f, hrun, hnodes⟩ := hq
  exact ⟨f, run_orElse.mpr (.inr ⟨hnone, hrun⟩), hnodes⟩

/-- A repetition reads one match and then more. -/
theorem Reads.star_cons (hconsumes : p.consumes = true) (hp : Reads add p u v a b)
    (hstar : Reads add (star p) v r b d) : Reads add (star p) u r a d := by
  -- The states are those of the sequence; only the run has another name.
  obtain ⟨f, hrun, hfirst⟩ := hp.seq hstar
  obtain ⟨f₁, v, f₂, h₁, h₂, rfl⟩ := run_seq.mp hrun
  refine ⟨f₁ ++ f₂, ?_, hfirst⟩
  rw [run_star, Option.some.injEq] at h₂ ⊢
  rw [many_of_some h₁ (length_lt_of_consumes hconsumes h₁), h₂]

/-- A node is read from the nodes inside it. -/
theorem Reads.node {rule : Rule} (hp : Reads add p u r a b)
    (h : ∀ n : Node Rule, n.rule = rule → n.children.foldlM add a = .ok b →
      add' a' n = .ok b') : Reads add' (Pattern.node rule p) u r a' b' := by
  obtain ⟨f, hrun, hnodes⟩ := hp
  refine ⟨.node rule f .nil, run_node.mpr ⟨f, hrun, rfl⟩, fun start => ?_⟩
  rw [Forest.nodes, Forest.nodes, List.foldlM_cons, h ⟨rule, start, f⟩ rfl (hnodes start)]
  rfl

/-- A node is read from its text. -/
theorem reads_leaf {rule : Rule} (hp : restOf p.run (s ++ r) = some r)
    (h : ∀ n : Node Rule, n.rule = rule → n.text = .ofList s → add a n = .ok b) :
    Reads add (Pattern.node rule p) (s ++ r) r a b := by
  obtain ⟨⟨f, t⟩, hrun, rfl⟩ := Option.map_eq_some_iff.mp hp
  have htext : f.text = s := List.append_cancel_right (lossless_run p _ _ _ hrun).symm
  refine ⟨.node rule f .nil, run_node.mpr ⟨f, hrun, rfl⟩, fun start => ?_⟩
  have hnode : add a ⟨rule, start, f⟩ = .ok b := h _ rfl (by rw [← htext]; rfl)
  rw [Forest.nodes, Forest.nodes, List.foldlM_cons, hnode]
  rfl

/-- A pattern without nodes leaves the state as it is. -/
theorem reads_of_restOf (hp : p.topRules = []) (h : restOf p.run u = some r) :
    Reads add p u r a a := by
  obtain ⟨⟨f, t⟩, hrun, rfl⟩ := Option.map_eq_some_iff.mp h
  have hsub := topRules_run p _ _ _ hrun
  rw [hp] at hsub
  refine ⟨f, hrun, fun start => ?_⟩
  rw [nodes_eq_nil (List.subset_nil.mp hsub)]
  rfl

/-- A character makes no node. -/
theorem reads_chr (c : Char) (r : List Char) : Reads add (chr c) (c :: r) r a a :=
  ⟨.char c .nil, run_chr.mpr ⟨rfl, rfl⟩, fun _ => rfl⟩

/-- A pattern that passes over the first character reads nothing. -/
theorem reads_of_peek {c : Char} (h : p.peek c = some true) (t : List Char) :
    Reads add p (c :: t) (c :: t) a a :=
  ⟨.nil, run_of_peek_true h t, fun _ => rfl⟩

/-! ## Blanks -/

/-- The characters with which a blank between items starts. -/
def gapSigns : List Char := ' ' :: '\t' :: '\\' :: '#' :: lineEnds

/-- Blanks between items are read anywhere, if only as nothing. -/
theorem peek_gaps {c : Char} (hc : c ∉ gapSigns) : (star gap).peek c = some true := by
  simp only [gapSigns, lineEnds, List.mem_cons, List.not_mem_nil, or_false, not_or] at hc
  obtain ⟨h₁, h₂, h₃, h₄, h₅, h₆⟩ := hc
  simp [gap, inlineSpace, continuation, lineBreak, comment, word, oneOf, chr, peek, h₁, h₂, h₃, h₄,
    h₅, h₆]

/-- Blanks are read up to what is none. -/
theorem reads_gaps {t : List Char} (ht : ∀ c ∈ t, c ∈ [' ', '\t']) (hu : Avoids gapSigns u) :
    Reads add (star gap) (t ++ u) u a a := by
  refine reads_of_restOf rfl ?_
  have hblank : ∀ c ∈ t, ∀ s, gap.run (c :: s) = some (.char c .nil, s) := by
    intro c hc s
    rcases List.mem_pair.mp (ht c hc) with rfl | rfl <;> rfl
  obtain ⟨c, hc, x, rfl⟩ := hu
  have hstop := run_of_peek_true (peek_gaps hc) x
  rw [run_star, Option.some.injEq] at hstop
  rw [restOf, run_star, Option.map_some, many_rest_of_chars hblank, hstop]

/-- Where no blank between items starts, none is read. -/
theorem reads_no_gaps (hu : Avoids gapSigns u) : Reads add (star gap) u u a a :=
  reads_gaps (t := []) (List.forall_mem_nil _) hu

/-- A text that starts with one of some characters starts with none of others. -/
theorem avoids_of_startsIn {cs cs' : List Char} (h : StartsIn cs u) (hcs : ∀ c ∈ cs, c ∉ cs') :
    Avoids cs' u := by
  obtain ⟨c, hc, t, rfl⟩ := h
  exact ⟨c, hcs c hc, t, rfl⟩

/-! ## Names -/

/-- A name is read to where no identifier goes on. -/
theorem restOf_identifierText_append {s : List Char} (hs : isName s = true)
    (hu : many (one Text.isXidContinue : Pattern Rule).run u = (.nil, u)) :
    restOf identifierText.run (s ++ u) = some u := by
  cases s with
  | nil => simp [isName] at hs
  | cons c s =>
    obtain ⟨hc, hs⟩ := Bool.and_eq_true_iff.mp hs
    have hstart : (one startsIdentifier : Pattern Rule).run (c :: (s ++ u)) =
        some (.char c .nil, s ++ u) := by
      rw [run, if_pos hc]
    have hrest : ∀ c ∈ s, ∀ t, (one Text.isXidContinue : Pattern Rule).run (c :: t) =
        some (.char c .nil, t) := by
      intro c hmem t
      rw [run, if_pos (List.all_eq_true.mp hs c hmem)]
    rw [List.cons_append, identifierText, restOf_seq, restOf, hstart, Option.map_some,
      Option.bind_some, restOf, run_star, Option.map_some, many_rest_of_chars hrest, hu]

/-- A name is read to its end. -/
theorem restOf_identifierText {s : List Char} (hs : isName s = true) (hu : StartsIn cs u)
    (hcs : ∀ c ∈ cs, Text.isXidContinue c = false) :
    restOf identifierText.run (s ++ u) = some u := by
  refine restOf_identifierText_append hs ?_
  obtain ⟨d, hd, t, rfl⟩ := hu
  exact many_of_none (by simp [run, hcs d hd])

/-- A name starts with a character that starts identifiers. -/
theorem exists_start_of_isName {s : List Char} (hs : isName s = true) :
    ∃ c t, s = c :: t ∧ startsIdentifier c = true := by
  cases s with
  | nil => simp [isName] at hs
  | cons c t => exact ⟨c, t, rfl, (Bool.and_eq_true_iff.mp hs).1⟩

/-- A name starts with no blank. -/
theorem avoids_of_isName {s : List Char} (hs : isName s = true) : Avoids gapSigns (s ++ u) := by
  obtain ⟨c, t, rfl, hc⟩ := exists_start_of_isName hs
  refine ⟨c, fun hmem => ?_, t ++ u, rfl⟩
  rw [(by decide : ∀ c ∈ gapSigns, startsIdentifier c = false) c hmem] at hc
  simp at hc

end UdfBridge.Source
