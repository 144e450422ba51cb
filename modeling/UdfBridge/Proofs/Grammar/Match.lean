import UdfBridge.Grammar.Pattern

/-!
# What a match is made of

The inversion lemmas of `Pattern.run`, one for each way to combine patterns, and the two facts about
repetition that carry arguments about grammars: a repetition stops where it would stop again
(`many_many`), and what its step preserves it preserves (`many_invariant`).

What a pattern says of the forests of its matches, whatever stands behind them in the text, is
`Pattern.Builds`. Facts about forests alone are shown by induction on it, and `Pattern.builds_run`
brings them to matches. Such a fact is which nodes a match can have at the outermost level:
`Pattern.topRules` lists their rules, and `Pattern.topRules_run` shows that a match has no others.
-/

namespace UdfBridge.Grammar

variable {ρ : Type}

/-! ## Repetition -/

/-- Where the step fails, a repetition takes nothing. -/
theorem many_of_none {step : Step ρ} {s : List Char} (h : step s = none) :
    many step s = (.nil, s) := by
  rw [many, h]

/-- A repetition takes a step that shortens the text, and goes on with the rest. -/
theorem many_of_some {step : Step ρ} {s r : List Char} {f : Forest ρ} (h : step s = some (f, r))
    (hlt : r.length < s.length) :
    many step s = (f ++ (many step r).1, (many step r).2) := by
  rw [many, h]
  simp only [hlt, dite_true]

/-- A step that does not shorten the text is not taken. -/
theorem many_of_not_lt {step : Step ρ} {s r : List Char} {f : Forest ρ} (h : step s = some (f, r))
    (hlt : ¬ r.length < s.length) : many step s = (.nil, s) := by
  rw [many, h]
  simp only [hlt, dite_false]

/-- A repetition takes the characters that its step takes one by one. -/
theorem many_rest_of_chars {step : Step ρ} {t : List Char}
    (ht : ∀ c ∈ t, ∀ s, step (c :: s) = some (.char c .nil, s)) (u : List Char) :
    (many step (t ++ u)).2 = (many step u).2 := by
  induction t with
  | nil => rfl
  | cons c t ih =>
    obtain ⟨hc, ht⟩ := List.forall_mem_cons.mp ht
    rw [List.cons_append, many_of_some (hc (t ++ u)) (by simp)]
    exact ih ht

/-- A repetition stops where it would stop again. -/
theorem many_many (step : Step ρ) (s : List Char) :
    many step (many step s).2 = (.nil, (many step s).2) := by
  fun_induction many step s with
  | case1 s h => exact many_of_none h
  | case2 s f r h hlt g t hm ih => rwa [hm] at ih
  | case3 s f r h hlt => exact many_of_not_lt h hlt

/-- What holds of a text, and of the rest that a step leaves if it holds before the step, holds of
the rest that a repetition leaves. -/
theorem many_invariant {step : Step ρ} {P : List Char → Prop}
    (hstep : ∀ s f r, P s → step s = some (f, r) → P r) {s : List Char} (hs : P s) :
    P (many step s).2 := by
  fun_induction many step s with
  | case1 s h => exact hs
  | case2 s f r h hlt g t hm ih =>
    have := ih (hstep s f r hs h)
    rwa [hm] at this
  | case3 s f r h hlt => exact hs

/-! ## Matches of combined patterns -/

namespace Pattern

variable {p q : Pattern ρ} {s r : List Char} {f : Forest ρ} {m : Forest ρ × List Char}

/-- The empty pattern matches everywhere, and takes nothing. -/
@[simp] theorem run_empty : (empty : Pattern ρ).run s = some (f, r) ↔ f = .nil ∧ r = s := by
  rw [run, Option.some.injEq, Prod.mk.injEq]
  exact and_congr eq_comm eq_comm

/-- A sequence matches where the first pattern matches, and the second one behind it. -/
theorem run_seq : (seq p q).run s = some (f, r) ↔
    ∃ f₁ r₁ f₂, p.run s = some (f₁, r₁) ∧ q.run r₁ = some (f₂, r) ∧ f = f₁ ++ f₂ := by
  rw [run]
  constructor
  · intro h
    split at h
    · simp at h
    · rename_i f₁ r₁ hp
      obtain ⟨⟨f₂, t⟩, hq, hf⟩ := Option.map_eq_some_iff.mp h
      obtain ⟨rfl, rfl⟩ := Prod.mk.inj hf
      exact ⟨f₁, r₁, f₂, hp, hq, rfl⟩
  · rintro ⟨f₁, r₁, f₂, hp, hq, rfl⟩
    simp [hp, hq]

/-- A choice takes the first match, and the second one only where there is no first. -/
theorem run_orElse : (orElse p q).run s = some m ↔
    p.run s = some m ∨ (p.run s = none ∧ q.run s = some m) := by
  rw [run]
  cases p.run s with
  | none => simp
  | some m' => simp

/-- A choice fails if both of its patterns do. -/
theorem run_orElse_eq_none : (orElse p q).run s = none ↔ p.run s = none ∧ q.run s = none := by
  rw [run]
  cases p.run s with
  | none => simp
  | some m' => simp

/-- A node holds the match of its pattern. -/
theorem run_node {rule : ρ} : (node rule p).run s = some (f, r) ↔
    ∃ g, p.run s = some (g, r) ∧ f = .node rule g .nil := by
  rw [run]
  constructor
  · intro h
    obtain ⟨⟨g, t⟩, hg, hf⟩ := Option.map_eq_some_iff.mp h
    obtain ⟨rfl, rfl⟩ := Prod.mk.inj hf
    exact ⟨g, hg, rfl⟩
  · rintro ⟨g, hg, rfl⟩
    simp [hg]

/-- One character is matched by a pattern that accepts it. -/
theorem run_one {accepts : Char → Bool} : (one accepts : Pattern ρ).run s = some (f, r) ↔
    ∃ c, accepts c = true ∧ s = c :: r ∧ f = .char c .nil := by
  cases s with
  | nil => simp [run]
  | cons d s =>
    simp only [run, Option.ite_none_right_eq_some, Option.some.injEq, Prod.mk.injEq,
      List.cons.injEq]
    constructor
    · rintro ⟨hd, rfl, rfl⟩
      exact ⟨d, hd, ⟨rfl, rfl⟩, rfl⟩
    · rintro ⟨c, hc, ⟨rfl, rfl⟩, rfl⟩
      exact ⟨hc, rfl, rfl⟩

/-- One character is matched by itself. -/
theorem run_chr {c : Char} : (chr c : Pattern ρ).run s = some (f, r) ↔
    s = c :: r ∧ f = .char c .nil := by
  rw [chr, run_one]
  constructor
  · rintro ⟨d, hd, h⟩
    rwa [beq_iff_eq.mp hd] at h
  · exact fun h => ⟨c, beq_self_eq_true c, h⟩

/-- What is not ahead takes nothing. -/
theorem run_notAhead : (notAhead p).run s = some (f, r) ↔ p.run s = none ∧ f = .nil ∧ r = s := by
  rw [run]
  cases p.run s with
  | none =>
    rw [Option.some.injEq, Prod.mk.injEq]
    exact ⟨fun h => ⟨rfl, h.1.symm, h.2.symm⟩, fun h => ⟨h.2.1.symm, h.2.2.symm⟩⟩
  | some m => simp

/-- A group is a bracket that opens it, and what stands up to the bracket that closes it. -/
theorem run_balanced : (balanced p).run s = some (f, r) ↔
    ∃ c w t g, closer? c = some w ∧ s = c :: t ∧ closeGroups p.run [w] t = some (g, r) ∧
      f = .char c g := by
  rw [run]
  constructor
  · intro h
    unfold group at h
    split at h
    · simp at h
    · rename_i c t
      split at h
      · simp at h
      · rename_i w hw
        obtain ⟨⟨g, u⟩, hg, hf⟩ := Option.map_eq_some_iff.mp h
        obtain ⟨rfl, rfl⟩ := Prod.mk.inj hf
        exact ⟨c, w, t, g, hw, rfl, hg, rfl⟩
  · rintro ⟨c, w, t, g, hw, rfl, hg, rfl⟩
    simp [group, hw, hg]

/-- What holds where a repetition takes nothing, and of a match with a repetition behind it if it
holds of that repetition, holds of every repetition. -/
theorem run_star_induction {Q : List Char → Forest ρ → List Char → Prop} (hnil : ∀ s, Q s .nil s)
    (hcons : ∀ {s f r g t}, p.run s = some (f, r) → (star p).run r = some (g, t) → Q r g t →
      Q s (f ++ g) t) (h : (star p).run s = some (f, r)) : Q s f r := by
  rw [run_star, Option.some.injEq] at h
  fun_induction many p.run s generalizing f r with
  | case1 s | case3 s =>
    -- The repetition ends here, or its next match would not go on.
    obtain ⟨rfl, rfl⟩ := Prod.mk.inj h
    exact hnil s
  | case2 s f' r' hrun hlt g t hm ih =>
    obtain ⟨rfl, rfl⟩ := Prod.mk.inj h
    exact hcons hrun (run_star.trans (congrArg some hm)) (ih hm)

/-- A sequence may be split anywhere. -/
theorem run_seq_assoc (p q r : Pattern ρ) (s : List Char) :
    (seq (seq p q) r).run s = (seq p (seq q r)).run s := by
  simp only [run]
  cases p.run s with
  | none => rfl
  | some m =>
    cases hq : q.run m.2 with
    | none => simp [hq]
    | some n => cases hr : r.run n.2 <;> simp [hq, hr, Forest.append_assoc]

/-- Patterns in order and then another one. -/
theorem run_inOrder_seq (p : Pattern ρ) (ps : List (Pattern ρ)) (q : Pattern ρ) (s : List Char) :
    (seq (inOrder (p :: ps)) q).run s = (inOrder (p :: (ps ++ [q]))).run s := by
  induction ps generalizing p s with
  | nil => rfl
  | cons p' ps ih =>
    -- The list is nested to the right, so the last pattern goes to its end step by step.
    have hrest : ∀ s, (seq (inOrder (p' :: ps)) q).run s =
        (inOrder (p' :: ps ++ [q])).run s := ih p'
    show (seq (seq p (inOrder (p' :: ps))) q).run s = (seq p (inOrder (p' :: ps ++ [q]))).run s
    rw [run_seq_assoc, run.eq_def, run.eq_def (seq p _)]
    simp only [hrest]

end Pattern

/-! ## The forests of a pattern -/

/-- The forest is put together as the pattern says. Of a choice this says that one of the patterns
built the forest, and not which one had to, and of a group it says nothing about its brackets. What
a node holds is a match of its pattern. -/
inductive Pattern.Builds : Pattern ρ → Forest ρ → Prop where
  | empty : Builds .empty .nil
  | one {accepts : Char → Bool} {c : Char} (hc : accepts c = true) :
    Builds (.one accepts) (.char c .nil)
  | seq {p q : Pattern ρ} {f g : Forest ρ} (hp : Builds p f) (hq : Builds q g) :
    Builds (.seq p q) (f ++ g)
  | left {p q : Pattern ρ} {f : Forest ρ} (hp : Builds p f) : Builds (.orElse p q) f
  | right {p q : Pattern ρ} {f : Forest ρ} (hq : Builds q f) : Builds (.orElse p q) f
  | done {p : Pattern ρ} : Builds (.star p) .nil
  | more {p : Pattern ρ} {f g : Forest ρ} (hp : Builds p f) (hmore : Builds (.star p) g) :
    Builds (.star p) (f ++ g)
  | notAhead {p : Pattern ρ} : Builds (.notAhead p) .nil
  | node {rule : ρ} {p : Pattern ρ} {s r : List Char} {f : Forest ρ} (hrun : p.run s = some (f, r))
    (hp : Builds p f) : Builds (.node rule p) (.node rule f .nil)
  | closed {p : Pattern ρ} : Builds (.balanced p) .nil
  | bracket {p : Pattern ρ} {g : Forest ρ} (c : Char) (hmore : Builds (.balanced p) g) :
    Builds (.balanced p) (.char c g)
  | piece {p : Pattern ρ} {f g : Forest ρ} (hp : Builds p f) (hmore : Builds (.balanced p) g) :
    Builds (.balanced p) (f ++ g)

namespace Pattern

variable {p : Pattern ρ}

/-- A balanced text is built of the leaves in it, however deep the brackets go. -/
theorem builds_closeGroups {leaf : Step ρ} (hleaf : ∀ s f r, leaf s = some (f, r) → p.Builds f)
    {ws s r : List Char} {f : Forest ρ} (h : closeGroups leaf ws s = some (f, r)) :
    (balanced p).Builds f := by
  fun_induction closeGroups leaf ws s generalizing f r with
  | case1 =>
    obtain ⟨rfl, -⟩ := Prod.mk.inj (Option.some.inj h)
    exact .closed
  | case2 => simp at h
  | case3 ws c s ih =>
    obtain ⟨⟨g, t⟩, hg, hf⟩ := Option.map_eq_some_iff.mp h
    obtain ⟨rfl, rfl⟩ := Prod.mk.inj hf
    exact .bracket c (ih hg)
  | case4 w ws c s _ v _ ih =>
    obtain ⟨⟨g, t⟩, hg, hf⟩ := Option.map_eq_some_iff.mp h
    obtain ⟨rfl, rfl⟩ := Prod.mk.inj hf
    exact .bracket c (ih hg)
  | case5 => simp at h
  | case6 w ws c s _ _ f' r' hl hlt ih =>
    obtain ⟨⟨g, t⟩, hg, hf⟩ := Option.map_eq_some_iff.mp h
    obtain ⟨rfl, rfl⟩ := Prod.mk.inj hf
    exact .piece (hleaf _ _ _ hl) (ih hg)
  | case7 => simp at h

/-- The forest of a match is put together as its pattern says. -/
theorem builds_run {s r : List Char} {f : Forest ρ} (h : p.run s = some (f, r)) : p.Builds f := by
  induction p generalizing s f r with
  | empty =>
    obtain ⟨rfl, -⟩ := run_empty.mp h
    exact .empty
  | one accepts =>
    obtain ⟨c, hc, -, rfl⟩ := run_one.mp h
    exact .one hc
  | seq p q ihp ihq =>
    obtain ⟨f₁, r₁, f₂, h₁, h₂, rfl⟩ := run_seq.mp h
    exact .seq (ihp h₁) (ihq h₂)
  | orElse p q ihp ihq =>
    rcases run_orElse.mp h with h | ⟨-, h⟩
    · exact .left (ihp h)
    · exact .right (ihq h)
  | star p ih =>
    exact run_star_induction (Q := fun _ f _ => (star p).Builds f) (fun _ => .done)
      (fun hrun _ => .more (ih hrun)) h
  | notAhead p _ =>
    obtain ⟨-, rfl, -⟩ := run_notAhead.mp h
    exact .notAhead
  | node rule p ih =>
    obtain ⟨g, hg, rfl⟩ := run_node.mp h
    exact .node hg (ih hg)
  | balanced leaf ih =>
    obtain ⟨c, w, t, g, -, -, hg, rfl⟩ := run_balanced.mp h
    exact .bracket c (builds_closeGroups (fun _ _ _ hrun => ih hrun) hg)

end Pattern

/-! ## The outermost nodes of a match -/

/-- The rules of the outermost nodes of a forest, in order. -/
def Forest.topRules : Forest ρ → List ρ
  | nil => []
  | char _ next => next.topRules
  | node rule _ next => rule :: next.topRules

/-- The outermost rules of two forests side by side are those of the first and then those of the
second. -/
@[simp] theorem Forest.topRules_append (f g : Forest ρ) :
    (f ++ g).topRules = f.topRules ++ g.topRules := by
  induction f with
  | nil => rfl
  | char c next ih => simp [topRules, ih]
  | node rule inner next _ ih => simp [topRules, ih]

/-- The rules of the outermost nodes do not depend on where the forest stands. -/
theorem Forest.map_rule_nodes (f : Forest ρ) (p : Text.Position) :
    (f.nodes p).map Node.rule = f.topRules := by
  induction f generalizing p with
  | nil => rfl
  | char c next ih => exact ih _
  | node rule inner next _ ih => simp [nodes, topRules, ih]

namespace Pattern

variable {p : Pattern ρ} {f : Forest ρ}

/-- The rules that the outermost nodes of a match can have. -/
def topRules : Pattern ρ → List ρ
  | empty | one _ | notAhead _ => []
  | seq p q | orElse p q => p.topRules ++ q.topRules
  | star p | balanced p => p.topRules
  | node rule _ => [rule]

/-- The outermost nodes of a match are of rules that the pattern names. -/
theorem Builds.topRules_subset (h : p.Builds f) : f.topRules ⊆ p.topRules := by
  induction h with
  | empty | one _ | done | notAhead | closed => exact List.nil_subset _
  | seq _ _ ihp ihq =>
    rw [Forest.topRules_append]
    exact List.append_subset.mpr ⟨List.subset_append_of_subset_left _ ihp,
      List.subset_append_of_subset_right _ ihq⟩
  | left _ ih => exact List.subset_append_of_subset_left _ ih
  | right _ ih => exact List.subset_append_of_subset_right _ ih
  | more _ _ ihp ihmore | piece _ _ ihp ihmore =>
    rw [Forest.topRules_append]
    exact List.append_subset.mpr ⟨ihp, ihmore⟩
  | node _ _ _ => exact List.Subset.refl _
  | bracket _ _ ih => exact ih

/-- The outermost nodes of a match all have a rule of `topRules`. -/
theorem topRules_run (p : Pattern ρ) (s : List Char) (f : Forest ρ) (r : List Char)
    (h : p.run s = some (f, r)) : f.topRules ⊆ p.topRules :=
  (builds_run h).topRules_subset

end Pattern

end UdfBridge.Grammar
