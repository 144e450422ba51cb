import UdfBridge.Grammar.Forest

/-!
# Patterns

A `Pattern` is a parsing expression: choice is ordered, repetition takes as much as it can, and
neither is undone by what follows. `Pattern.run` matches a pattern at the start of a text and gives
the forest of what it matched with the rest of the text. A pattern says nothing of the text behind
its match, so a prefix of the text may match.

Brackets nest to any depth, which the other constructors cannot say. `Pattern.balanced` matches one
bracketed group, given a pattern for the pieces between brackets. It keeps the closing brackets it
still awaits: a group has only one way to match, so nothing is ever retried.

`Pattern.lossless_run` states that a match loses nothing: the text is what was matched and then the
rest.
-/

namespace UdfBridge.Grammar

/-- A pattern over characters, with nodes named by rules of `ρ`. -/
inductive Pattern (ρ : Type) where
  /-- Matches the empty text. -/
  | empty
  /-- Matches one character that `accepts` accepts. -/
  | one (accepts : Char → Bool)
  /-- Matches `p` and then `q`. -/
  | seq (p q : Pattern ρ)
  /-- Matches `p`, or `q` where `p` does not match. -/
  | orElse (p q : Pattern ρ)
  /-- Matches `p` as many times as it can. -/
  | star (p : Pattern ρ)
  /-- Matches the empty text where `p` does not match. -/
  | notAhead (p : Pattern ρ)
  /-- Matches `p` as a node that `rule` names. -/
  | node (rule : ρ) (p : Pattern ρ)
  /-- Matches a group in round, square or curly brackets of groups and of pieces that `leaf`
  matches. -/
  | balanced (leaf : Pattern ρ)

/-- The bracket that closes a group which `c` opens. -/
def closer? (c : Char) : Option Char :=
  if c = '(' then some ')'
  else if c = '[' then some ']'
  else if c = '\x7b' then some '\x7d'
  else none

/-- What a step on a text gives: what it matched and the rest of the text. -/
abbrev Step (ρ : Type) := List Char → Option (Forest ρ × List Char)

variable {ρ : Type}

/-- Takes `step` as long as it succeeds and shortens the text. -/
def many (step : Step ρ) (s : List Char) : Forest ρ × List Char :=
  match step s with
  | none => (.nil, s)
  | some (f, r) =>
    if _h : r.length < s.length then
      let (g, t) := many step r
      (f ++ g, t)
    else (.nil, s)
termination_by s.length

/-- Reads up to the end of the outermost of the open groups, of which `awaited` holds the closing
brackets, innermost first. -/
def closeGroups (leaf : Step ρ) : List Char → Step ρ
  | [], s => some (.nil, s)
  | _ :: _, [] => none
  | w :: ws, c :: s =>
    if c = w then (closeGroups leaf ws s).map fun (f, r) => (.char c f, r)
    else
      match closer? c with
      | some v => (closeGroups leaf (v :: w :: ws) s).map fun (f, r) => (.char c f, r)
      | none =>
        match leaf (c :: s) with
        | none => none
        | some (f, r) =>
          if _h : r.length < (c :: s).length then
            (closeGroups leaf (w :: ws) r).map fun (g, t) => (f ++ g, t)
          else none
termination_by _ s => s.length
decreasing_by
  all_goals
    simp only [List.length_cons] at *
    omega

/-- Reads a group from the bracket that opens it to the one that closes it. -/
def group (leaf : Step ρ) : Step ρ
  | [] => none
  | c :: s =>
    match closer? c with
    | none => none
    | some w => (closeGroups leaf [w] s).map fun (f, r) => (.char c f, r)

namespace Pattern

/-- Matches the pattern at the start of a text. -/
def run : Pattern ρ → Step ρ
  | empty, s => some (.nil, s)
  | one _, [] => none
  | one accepts, c :: s => if accepts c then some (.char c .nil, s) else none
  | seq p q, s =>
    match p.run s with
    | none => none
    | some (f, r) => (q.run r).map fun (g, t) => (f ++ g, t)
  | orElse p q, s =>
    match p.run s with
    | none => q.run s
    | some m => some m
  | star p, s => some (many p.run s)
  | notAhead p, s =>
    match p.run s with
    | none => some (.nil, s)
    | some _ => none
  | node rule p, s => (p.run s).map fun (f, r) => (.node rule f .nil, r)
  | balanced leaf, s => group leaf.run s

/-- A repetition always matches. -/
theorem run_star {p : Pattern ρ} {s : List Char} : (star p).run s = some (many p.run s) := rfl

/-- What follows a repetition does not undo it. -/
example : (seq (star (one (· == 'a'))) (one (· == 'a')) : Pattern Unit).run ['a', 'a'] = none := by
  cbv

/-- Matches any one character. -/
def any : Pattern ρ := one fun _ => true

/-- Matches the character `c`. -/
def chr (c : Char) : Pattern ρ := one (· == c)

/-- Matches one of the characters of `cs`. -/
def oneOf (cs : List Char) : Pattern ρ := one cs.contains

/-- Matches one character that is none of `cs`. -/
def noneOf (cs : List Char) : Pattern ρ := one fun c => !cs.contains c

/-- Matches the characters of `cs` in order. -/
def word : List Char → Pattern ρ
  | [] => empty
  | [c] => chr c
  | c :: cs => seq (chr c) (word cs)

/-- Matches the patterns in order. -/
def inOrder : List (Pattern ρ) → Pattern ρ
  | [] => empty
  | [p] => p
  | p :: ps => seq p (inOrder ps)

/-- Matches `p`, or nothing. -/
def optional (p : Pattern ρ) : Pattern ρ := orElse p empty

/-- Matches `p` once and then as many times as it can. -/
def plus (p : Pattern ρ) : Pattern ρ := seq p (star p)

end Pattern

/-- A step that loses nothing: the text is what the step matches and then the rest. -/
def Lossless (step : Step ρ) : Prop :=
  ∀ s f r, step s = some (f, r) → s = f.text ++ r

/-- Repetition loses nothing of the text. -/
theorem Lossless.many_text {step : Step ρ} (hstep : Lossless step) (s : List Char) :
    s = (many step s).1.text ++ (many step s).2 := by
  fun_induction many step s with
  | case1 => rfl
  | case2 s f r h hlt g t hm ih =>
    rw [hm] at ih
    simp only [Forest.text_append, List.append_assoc]
    rw [← ih]
    exact hstep _ _ _ h
  | case3 => rfl

/-- Closing the open groups loses nothing of the text. -/
theorem Lossless.closeGroups {leaf : Step ρ} (hleaf : Lossless leaf) (ws : List Char) :
    Lossless (closeGroups leaf ws) := by
  intro s f r h
  fun_induction Grammar.closeGroups leaf ws s generalizing f r with
  | case1 =>
    obtain ⟨rfl, rfl⟩ := Prod.mk.inj (Option.some.inj h)
    rfl
  | case2 => simp at h
  | case3 w ws s ih =>
    obtain ⟨⟨g, t⟩, hg, hf⟩ := Option.map_eq_some_iff.mp h
    obtain ⟨rfl, rfl⟩ := Prod.mk.inj hf
    simp [Forest.text, ← ih _ _ hg]
  | case4 w ws c s _ v _ ih =>
    obtain ⟨⟨g, t⟩, hg, hf⟩ := Option.map_eq_some_iff.mp h
    obtain ⟨rfl, rfl⟩ := Prod.mk.inj hf
    simp [Forest.text, ← ih _ _ hg]
  | case5 => simp at h
  | case6 w ws c s _ _ f' r' hl hlt ih =>
    obtain ⟨⟨g, t⟩, hg, hf⟩ := Option.map_eq_some_iff.mp h
    obtain ⟨rfl, rfl⟩ := Prod.mk.inj hf
    rw [Forest.text_append, List.append_assoc, ← ih _ _ hg]
    exact hleaf _ _ _ hl
  | case7 => simp at h

/-- Reading a group loses nothing of the text. -/
theorem Lossless.group {leaf : Step ρ} (hleaf : Lossless leaf) : Lossless (group leaf) := by
  intro s f r h
  unfold Grammar.group at h
  split at h
  · simp at h
  · split at h
    · simp at h
    · obtain ⟨⟨g, t⟩, hg, hf⟩ := Option.map_eq_some_iff.mp h
      obtain ⟨rfl, rfl⟩ := Prod.mk.inj hf
      simp [Forest.text, ← hleaf.closeGroups _ _ _ _ hg]

/-- A match loses nothing: the text is what was matched and then the rest. -/
theorem Pattern.lossless_run (p : Pattern ρ) : Lossless p.run := by
  induction p with
  | empty =>
    intro s f r h
    obtain ⟨rfl, rfl⟩ := Prod.mk.inj (Option.some.inj h)
    rfl
  | one accepts =>
    intro s f r h
    cases s with
    | nil => simp [run] at h
    | cons c s =>
      simp only [run, Option.ite_none_right_eq_some, Option.some.injEq, Prod.mk.injEq] at h
      obtain ⟨_, rfl, rfl⟩ := h
      rfl
  | seq p q ihp ihq =>
    intro s f r h
    rw [run] at h
    split at h
    · simp at h
    · rename_i f' r' hp
      obtain ⟨⟨g, t⟩, hg, hf⟩ := Option.map_eq_some_iff.mp h
      obtain ⟨rfl, rfl⟩ := Prod.mk.inj hf
      rw [ihp _ _ _ hp, ihq _ _ _ hg, Forest.text_append, List.append_assoc]
  | orElse p q ihp ihq =>
    intro s f r h
    rw [run] at h
    split at h
    · exact ihq _ _ _ h
    · rename_i m hp
      exact ihp _ _ _ (hp.trans h)
  | star p ih =>
    intro s f r h
    rw [run, Option.some.injEq] at h
    have := ih.many_text s
    rwa [h] at this
  | notAhead p _ =>
    intro s f r h
    rw [run] at h
    split at h
    · obtain ⟨rfl, rfl⟩ := Prod.mk.inj (Option.some.inj h)
      rfl
    · simp at h
  | node rule p ih =>
    intro s f r h
    rw [run] at h
    obtain ⟨⟨g, t⟩, hg, hf⟩ := Option.map_eq_some_iff.mp h
    obtain ⟨rfl, rfl⟩ := Prod.mk.inj hf
    simp [Forest.text, ← ih _ _ _ hg]
  | balanced leaf ih =>
    intro s f r h
    exact ih.group _ _ _ (by rwa [run] at h)

end UdfBridge.Grammar
