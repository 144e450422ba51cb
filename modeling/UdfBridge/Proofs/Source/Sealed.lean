import UdfBridge.Proofs.Source.LineEnding

/-!
# Matching before a colon

A definition up to its body is a text that ends with a colon. If there are no three quotes in a row
in it either, it is `Sealed`: no token that starts in it needs what stands behind it. A pattern may
still look further, for a group that is not closed or a comment that does not end goes on as long as
the text does. But then it fails, or what is left does not go on as the grammar asks. So only the
matches have to be followed: `Keeps B p` says that a match of `p` within a sealed text, which leaves
a text of `B`, is the same one whatever stands behind that text.

There is one lemma for each way to combine patterns. What `B` asks for is mostly that the rest does
not start with a character where the pattern might go on (`Avoids`).
-/

namespace UdfBridge.Source

open Grammar
open Grammar.Pattern

variable {p q : Pattern Rule} {B C : List Char → Prop} {cs : List Char} {c : Char}
  {u v w t : List Char} {f : Forest Rule}

/-- The text ends with a colon and has no three equal quotes in a row. -/
structure Sealed (v : List Char) : Prop where
  colon : [':'] <:+ v
  quotes : ∀ q ∈ quotes, ¬ [q, q, q] <:+: v

/-- A sealed text is not empty, for it ends with a colon. -/
theorem Sealed.ne_nil (hv : Sealed v) : v ≠ [] := by
  rintro rfl
  simpa using hv.colon

/-- What is left of a sealed text is sealed. -/
theorem Sealed.of_append {a : List Char} (hv : Sealed (a ++ u)) (hu : u ≠ []) : Sealed u := by
  constructor
  · refine List.suffix_of_suffix_length_le hv.colon (List.suffix_append a u) ?_
    exact List.length_pos_iff.mpr hu
  · intro q hq hthree
    exact hv.quotes q hq (List.IsInfix.trans hthree (List.suffix_append a u).isInfix)

/-- Behind a character other than the colon, a sealed text goes on. -/
theorem Sealed.tail (hv : Sealed (c :: u)) (hc : c ≠ ':') : Sealed u := by
  refine hv.of_append (a := [c]) ?_
  rintro rfl
  have hcolon := List.mem_singleton.mp (hv.colon.subset List.mem_cons_self)
  exact hc hcolon.symm

/-- A text that starts with none of the characters, and with some other one. -/
def Avoids (cs : List Char) (w : List Char) : Prop := ∃ c ∉ cs, ∃ x, w = c :: x

/-- A text that starts with another character is not empty. -/
theorem Avoids.ne_nil (h : Avoids cs w) : w ≠ [] := by
  obtain ⟨c, -, x, rfl⟩ := h
  simp

/-- A text that is not empty avoids starting with none. -/
theorem avoids_nil (h : w ≠ []) : Avoids [] w := by
  obtain ⟨c, x, rfl⟩ := List.exists_cons_of_ne_nil h
  exact ⟨c, List.not_mem_nil, x, rfl⟩

/-- A text that avoids some characters avoids fewer of them. -/
theorem Avoids.mono {cs' : List Char} (h : Avoids cs w) (hcs : cs' ⊆ cs) : Avoids cs' w := by
  obtain ⟨c, hc, x, rfl⟩ := h
  exact ⟨c, fun hmem => hc (hcs hmem), x, rfl⟩

/-- In a sealed text, a match of the pattern that leaves a text of `B` does not depend on what stands
behind the sealed text. -/
def Keeps (B : List Char → Prop) (p : Pattern Rule) : Prop :=
  ∀ v w t f, Sealed v → B w → p.run (v ++ t) = some (f, w ++ t) →
    ∀ t', p.run (v ++ t') = some (f, w ++ t')

/-- What keeps the pattern from a match stands in the sealed text. -/
def Drops (p : Pattern Rule) : Prop :=
  ∀ v t, Sealed v → p.run (v ++ t) = none → ∀ t', p.run (v ++ t') = none

/-- What does not depend on the text behind, whatever it leaves, does not so for fewer rests. -/
theorem Keeps.mono (hp : Keeps B p) (h : ∀ w, C w → B w) : Keeps C p :=
  fun v w t f hv hw => hp v w t f hv (h w hw)

/-! ## Sequences -/

/-- Between the matches of a sequence stands a part of the text before `t`. -/
theorem exists_between (h : (seq p q).run (v ++ t) = some (f, w ++ t)) :
    ∃ u f₁ f₂, p.run (v ++ t) = some (f₁, u ++ t) ∧ q.run (u ++ t) = some (f₂, w ++ t) ∧
      f = f₁ ++ f₂ ∧ v = f₁.text ++ u ∧ u = f₂.text ++ w := by
  obtain ⟨f₁, r, f₂, hp, hq, rfl⟩ := run_seq.mp h
  obtain rfl : r = (f₂.text ++ w) ++ t := by
    rw [lossless_run q _ _ _ hq, List.append_assoc]
  refine ⟨_, f₁, f₂, hp, hq, rfl, ?_, rfl⟩
  have hsplit := lossless_run p _ _ _ hp
  rwa [← List.append_assoc, List.append_cancel_right_eq] at hsplit

/-- Something is left before the second pattern, if it takes something or leaves something. -/
theorem ne_nil_of_run (hrest : q.consumes = true ∨ w ≠ [])
    (h : q.run (u ++ t) = some (f, w ++ t)) : u ≠ [] := by
  rintro rfl
  rcases hrest with hconsumes | hw
  · have hlt := length_lt_of_consumes hconsumes h
    simp only [List.nil_append, List.length_append] at hlt
    omega
  · have hle := length_le_of_run h
    have hpos := List.length_pos_iff.mpr hw
    simp only [List.nil_append, List.length_append] at hle
    omega

/-- A sequence, where the first pattern leaves what the second one needs. -/
theorem Keeps.seq_of (hp : Keeps B p) (hq : Keeps C q)
    (hrest : q.consumes = true ∨ ∀ w, C w → w ≠ [])
    (hbetween : ∀ u w t f, Sealed u → C w → q.run (u ++ t) = some (f, w ++ t) → B u) :
    Keeps C (seq p q) := by
  intro v w t f hv hw h t'
  obtain ⟨u, f₁, f₂, hfirst, hsecond, rfl, hvu, -⟩ := exists_between h
  have hu : Sealed u := by
    rw [hvu] at hv
    exact hv.of_append (ne_nil_of_run (hrest.imp_right fun hne => hne w hw) hsecond)
  refine run_seq.mpr ⟨f₁, u ++ t', f₂, ?_, hq u w t f₂ hu hw hsecond t', rfl⟩
  exact hp v u t f₁ hv (hbetween u w t f₂ hu hw hsecond) hfirst t'

/-- A sequence whose second pattern fails where the first one might go on, or passes over and leaves
what is not asked for. -/
theorem Keeps.seq (hp : Keeps (Avoids cs) p) (hq : Keeps C q)
    (hrest : q.consumes = true ∨ ∀ w, C w → w ≠ [])
    (hcs : ∀ c ∈ cs, q.peek c = some false ∨ (q.peek c = some true ∧ ∀ x, ¬ C (c :: x))) :
    Keeps C (seq p q) := by
  refine hp.seq_of hq hrest fun u w t f hu hw hrun => ?_
  obtain ⟨c, x, rfl⟩ := List.exists_cons_of_ne_nil hu.ne_nil
  refine ⟨c, fun hc => ?_, x, rfl⟩
  -- At a character of `cs` the second pattern would not have this match.
  rcases hcs c hc with hrefused | ⟨hpassed, hnot⟩
  · rw [List.cons_append, run_of_peek_false hrefused] at hrun
    simp at hrun
  · rw [List.cons_append, run_of_peek_true hpassed, Option.some.injEq, Prod.mk.injEq,
      ← List.cons_append, List.append_cancel_right_eq] at hrun
    exact hnot x (hrun.2 ▸ hw)

/-- A sequence whose first pattern needs nothing but that the text goes on. -/
theorem Keeps.seq_plain (hp : Keeps (Avoids []) p) (hq : Keeps C q)
    (hrest : q.consumes = true ∨ ∀ w, C w → w ≠ []) : Keeps C (Pattern.seq p q) :=
  hp.seq hq hrest fun _ h => absurd h List.not_mem_nil

/-- A sequence may be grouped the other way. -/
theorem Keeps.seq_assoc {r : Pattern Rule} (h : Keeps B (Pattern.seq p (Pattern.seq q r))) :
    Keeps B (Pattern.seq (Pattern.seq p q) r) := by
  intro v w t f hv hw hrun t'
  rw [run_seq_assoc] at hrun ⊢
  exact h v w t f hv hw hrun t'

/-! ## Choices -/

/-- A choice, where the first pattern does not match in another text where the second one matches
in this one. -/
theorem Keeps.orElse (hp : Keeps B p) (hq : Keeps B q)
    (hfirst : ∀ v w t f, Sealed v → B w → p.run (v ++ t) = none → q.run (v ++ t) = some (f, w ++ t) →
      ∀ t', p.run (v ++ t') = none) : Keeps B (orElse p q) := by
  intro v w t f hv hw h t'
  rcases run_orElse.mp h with h | ⟨hnone, h⟩
  · exact run_orElse.mpr (.inl (hp v w t f hv hw h t'))
  · exact run_orElse.mpr (.inr ⟨hfirst v w t f hv hw hnone h t', hq v w t f hv hw h t'⟩)

/-- A choice does not depend on the text behind, if neither of its patterns does and what keeps the
first from a match stands in the sealed text. -/
theorem Keeps.orElse_drops (hp : Keeps B p) (hq : Keeps B q) (hdrops : Drops p) :
    Keeps B (Pattern.orElse p q) :=
  hp.orElse hq fun v _ t _ hv _ hnone _ => hdrops v t hv hnone

/-- A choice, where the first pattern starts with a character of `cs` and the second one does not. -/
theorem Keeps.orElse_apart (cs : List Char) (hp : Keeps B p) (hq : Keeps B q)
    (hstart : ∀ c ∉ cs, p.peek c = some false) (hother : ∀ c ∈ cs, q.peek c = some false) :
    Keeps B (Pattern.orElse p q) := by
  refine hp.orElse hq fun v w t f hv _ _ hrun t' => ?_
  obtain ⟨c, x, rfl⟩ := List.exists_cons_of_ne_nil hv.ne_nil
  by_cases hc : c ∈ cs
  · rw [List.cons_append, run_of_peek_false (hother c hc)] at hrun
    simp at hrun
  · exact run_of_peek_false (hstart c hc) _

/-- Nothing is matched whatever stands behind. -/
theorem keeps_empty : Keeps B empty := by
  intro v w t f _ _ h t'
  obtain ⟨rfl, hrest⟩ := run_empty.mp h
  obtain rfl := List.append_cancel_right hrest
  rfl

/-- An optional pattern that does not match what is to be left. -/
theorem Keeps.optional (hp : Keeps B p) (hnone : ∀ w t, B w → p.run (w ++ t) = none) :
    Keeps B (optional p) := by
  refine hp.orElse keeps_empty fun v w t f _ hw _ hrun t' => ?_
  obtain ⟨-, hrest⟩ := run_empty.mp hrun
  obtain rfl := List.append_cancel_right hrest
  exact hnone _ t' hw

/-- What keeps a choice from a match stands in the sealed text, if it does for both of its
patterns. -/
theorem Drops.orElse (hp : Drops p) (hq : Drops q) : Drops (Pattern.orElse p q) := by
  intro v t hv h t'
  obtain ⟨hpn, hqn⟩ := run_orElse_eq_none.mp h
  exact run_orElse_eq_none.mpr ⟨hp v t hv hpn t', hq v t hv hqn t'⟩

/-! ## Nodes and characters -/

/-- A match does not depend on the text behind as a node either. -/
theorem Keeps.node {rule : Rule} (hp : Keeps B p) : Keeps B (node rule p) := by
  intro v w t f hv hw h t'
  obtain ⟨g, hg, rfl⟩ := run_node.mp h
  exact run_node.mpr ⟨g, hp v w t g hv hw hg t', rfl⟩

/-- What keeps a pattern from a match keeps it from one as a node. -/
theorem Drops.node {rule : Rule} (hp : Drops p) : Drops (Pattern.node rule p) := by
  intro v t hv h t'
  rw [run, Option.map_eq_none_iff] at h ⊢
  exact hp v t hv h t'

/-- One character in the sealed text does not depend on the text behind. -/
theorem keeps_one {accepts : Char → Bool} : Keeps B (one accepts) := by
  intro v w t f _ _ h t'
  obtain ⟨c, haccepts, hs, rfl⟩ := run_one.mp h
  obtain rfl : v = c :: w := List.append_cancel_right hs
  exact run_one.mpr ⟨c, haccepts, rfl, rfl⟩

/-- A given character does not depend on the text behind. -/
theorem keeps_chr : Keeps B (chr c) := keeps_one

/-- A character that is matched stands at the start. -/
theorem eq_cons_of_chr (hu : u ≠ []) (h : (chr c).run (u ++ t) = some (f, w ++ t)) : u = c :: w := by
  obtain ⟨d, x, rfl⟩ := List.exists_cons_of_ne_nil hu
  obtain ⟨heq, -⟩ := run_chr.mp h
  obtain ⟨rfl, hrest⟩ := List.cons.inj heq
  rw [List.append_cancel_right hrest]

/-- A word does not depend on the text behind. -/
theorem keeps_word {a : Char} {as : List Char} : Keeps B (word (a :: as)) := by
  induction as generalizing a with
  | nil => exact keeps_chr
  | cons b bs ih =>
    refine keeps_chr.seq_plain ih (.inl ?_)
    cases bs <;> rfl

/-- A character that is refused stands in the sealed text. -/
theorem drops_one {accepts : Char → Bool} : Drops (one accepts) := by
  intro v t hv h t'
  obtain ⟨c, x, rfl⟩ := List.exists_cons_of_ne_nil hv.ne_nil
  simpa [run] using h

/-- The same for a given character. -/
theorem drops_chr : Drops (chr c) := drops_one

/-- Behind a character other than the colon there is a sealed text again. -/
theorem Drops.chr_seq (hq : Drops q) (hc : c ≠ ':') : Drops (Pattern.seq (chr c) q) := by
  intro v t hv h t'
  obtain ⟨d, x, rfl⟩ := List.exists_cons_of_ne_nil hv.ne_nil
  by_cases hd : d = c
  · -- The first pattern matches in both texts, so it is the second one that does not.
    subst hd
    have hstart : ∀ s, (chr d : Pattern Rule).run (d :: s) = some (.char d .nil, s) := fun s =>
      run_chr.mpr ⟨rfl, rfl⟩
    rw [List.cons_append, run, hstart, Option.map_eq_none_iff] at h ⊢
    exact hq x t (hv.tail hc) h t'
  · refine run_of_peek_false ?_ (x ++ t')
    simp [peek, chr, hd]

/-- A pattern that always matches is kept from no match. -/
theorem drops_of_isTotal (hp : p.isTotal = true) : Drops p := by
  intro v t _ h
  obtain ⟨f, r, hrun⟩ := exists_run_of_isTotal hp (v ++ t)
  simp [h] at hrun

/-! ## Repetition -/

/-- A repetition takes nothing, or a match and then what is left of the text. -/
theorem many_cases (hconsumes : p.consumes = true) (h : many p.run (u ++ t) = (f, w ++ t)) :
    u = w ∨ ∃ g x, p.run (u ++ t) = some (g, x ++ t) := by
  cases hfirst : p.run (u ++ t) with
  | none =>
    rw [many_of_none hfirst, Prod.mk.injEq, List.append_cancel_right_eq] at h
    exact .inl h.2
  | some m =>
    obtain ⟨g, r⟩ := m
    rw [many_of_some hfirst (length_lt_of_consumes hconsumes hfirst), Prod.mk.injEq] at h
    have htext := (lossless_run p).many_text r
    rw [h.2, ← List.append_assoc] at htext
    exact .inr ⟨g, _, by rw [← htext]⟩

/-- A repetition, where each match leaves what the next one or the end needs, and the pattern fails
at the end whatever stands behind it. The induction is on the matches. -/
theorem Keeps.star (hp : Keeps B p) (hconsumes : p.consumes = true)
    (hnext : ∀ v w t f, Sealed v → p.run (v ++ t) = some (f, w ++ t) → B v)
    (hlast : ∀ w, C w → w ≠ [] ∧ B w)
    (hstop : ∀ w t, Sealed w → C w → p.run (w ++ t) = none → ∀ t', p.run (w ++ t') = none) :
    Keeps C (star p) := by
  intro v w t f hv hw h t'
  rw [run_star, Option.some.injEq] at h ⊢
  generalize hs : v ++ t = s at h
  fun_induction many p.run s generalizing v f with
  | case1 s hnone =>
    -- The repetition ends here, in the other text too.
    subst hs
    obtain ⟨rfl, hrest⟩ := Prod.mk.inj h
    obtain rfl := List.append_cancel_right hrest
    exact many_of_none (hstop v t hv hw hnone t')
  | case2 s f₁ r hrun hlt g x hm ih =>
    subst hs
    obtain ⟨rfl, rfl⟩ := Prod.mk.inj h
    -- What the match leaves is a part of the sealed text and then `t`.
    obtain rfl : r = (g.text ++ w) ++ t := by
      have htext := (lossless_run p).many_text r
      rw [hm] at htext
      rw [htext, List.append_assoc]
    generalize hu : g.text ++ w = u at hrun hlt ih hm
    -- A repetition that leaves the sealed text goes on in it, so something of it is left.
    have hune : u ≠ [] := by
      rw [← hu]
      exact List.append_ne_nil_of_right_ne_nil _ (hlast w hw).1
    have hsealed : Sealed u := by
      have htext := lossless_run p _ _ _ hrun
      rw [← List.append_assoc, List.append_cancel_right_eq] at htext
      rw [htext] at hv
      exact hv.of_append hune
    -- What comes next is the end of the repetition or one more match.
    have hB : B u := by
      rcases many_cases hconsumes hm with rfl | ⟨f₂, x, hsecond⟩
      · exact (hlast u hw).2
      · exact hnext u x t f₂ hsealed hsecond
    have hfirst := hp v u t f₁ hv hB hrun t'
    have hrest := ih u g hsealed rfl hm
    have hshorter := length_lt_of_consumes hconsumes hfirst
    rw [many_of_some hfirst hshorter, hrest]
  | case3 s f₁ r hrun hlt => exact absurd (length_lt_of_consumes hconsumes hrun) hlt

/-- A repetition of a pattern that only needs the text to go on, up to where it fails. -/
theorem Keeps.star_plain (hp : Keeps (Avoids []) p) (hconsumes : p.consumes = true)
    (hstop : ∀ w t, Sealed w → Avoids cs w → p.run (w ++ t) = none → ∀ t', p.run (w ++ t') = none) :
    Keeps (Avoids cs) (Pattern.star p) :=
  hp.star hconsumes (fun _ _ _ _ hv _ => avoids_nil hv.ne_nil)
    (fun _ hw => ⟨hw.ne_nil, avoids_nil hw.ne_nil⟩) hstop

/-- A repetition does not depend on the text behind, if what is repeated does not and what keeps it
from a match stands in the sealed text. -/
theorem Keeps.star_drops (hp : Keeps (Avoids []) p) (hconsumes : p.consumes = true)
    (hdrops : Drops p) : Keeps (Avoids []) (Pattern.star p) :=
  hp.star_plain hconsumes fun w t hw _ => hdrops w t hw

/-! ## Groups in brackets -/

/-- Closing groups makes no text longer. -/
theorem length_le_of_closeGroups {leaf : Pattern Rule} {bs s r : List Char}
    (h : closeGroups leaf.run bs s = some (f, r)) : r.length ≤ s.length := by
  rw [(lossless_run leaf).closeGroups _ _ _ _ h, List.length_append]
  omega

/-- Closing a group takes something of the text. -/
theorem length_lt_of_closeGroups {leaf : Pattern Rule} {b : Char} {bs s r : List Char}
    (h : closeGroups leaf.run (b :: bs) s = some (f, r)) : r.length < s.length := by
  cases s with
  | nil => simp [closeGroups] at h
  | cons c s =>
    rw [closeGroups] at h
    split at h
    · obtain ⟨m, hm, hmap⟩ := Option.map_eq_some_iff.mp h
      obtain ⟨-, rfl⟩ := Prod.mk.inj hmap
      exact Nat.lt_succ_of_le (length_le_of_closeGroups hm)
    · split at h
      · obtain ⟨m, hm, hmap⟩ := Option.map_eq_some_iff.mp h
        obtain ⟨-, rfl⟩ := Prod.mk.inj hmap
        exact Nat.lt_succ_of_le (length_le_of_closeGroups hm)
      · split at h
        · simp at h
        · split at h
          · rename_i hlt
            obtain ⟨m, hm, hmap⟩ := Option.map_eq_some_iff.mp h
            obtain ⟨-, rfl⟩ := Prod.mk.inj hmap
            exact Nat.lt_of_le_of_lt (length_le_of_closeGroups hm) hlt
          · simp at h

/-- What stands behind the whole text is not what is read of it. -/
theorem exists_cons_of_length_lt {s : List Char} (hs : v ++ t = c :: s)
    (hlt : (w ++ t).length < (c :: s).length) : ∃ x, v = c :: x ∧ s = x ++ t := by
  cases v with
  | nil =>
    rw [← hs, List.length_append, List.nil_append] at hlt
    omega
  | cons d x =>
    obtain ⟨rfl, rfl⟩ := List.cons.inj hs
    exact ⟨x, rfl, rfl⟩

/-- The groups that pieces make up. The induction is on the text; pieces only need it to go on, for
the brackets are still to be closed. -/
theorem keeps_closeGroups {leaf : Pattern Rule} (hleaf : Keeps (Avoids []) leaf)
    (hconsumes : leaf.consumes = true) {bs : List Char} (hv : v ≠ [] → Sealed v)
    (h : closeGroups leaf.run bs (v ++ t) = some (f, w ++ t)) (t' : List Char) :
    closeGroups leaf.run bs (v ++ t') = some (f, w ++ t') := by
  have hrest : ∀ {a x : List Char}, (a ++ x ≠ [] → Sealed (a ++ x)) → x ≠ [] → Sealed x :=
    fun hax hx => (hax (List.append_ne_nil_of_right_ne_nil _ hx)).of_append hx
  generalize hs : v ++ t = s at h
  fun_induction closeGroups leaf.run bs s generalizing v f with
  | case1 s =>
    obtain ⟨rfl, heq⟩ := Prod.mk.inj (Option.some.inj h)
    obtain rfl : v = w := List.append_cancel_right (hs.trans heq)
    rw [closeGroups]
  | case2 => simp at h
  | case3 bs b s ih =>
    -- The awaited bracket closes a group.
    obtain ⟨⟨g, r⟩, hinner, hmap⟩ := Option.map_eq_some_iff.mp h
    obtain ⟨rfl, rfl⟩ := Prod.mk.inj hmap
    obtain ⟨x, rfl, rfl⟩ :=
      exists_cons_of_length_lt hs (Nat.lt_succ_of_le (length_le_of_closeGroups hinner))
    rw [List.cons_append, closeGroups_close, ih (hrest (a := [b]) hv) rfl hinner]
    rfl
  | case4 b bs c s hne closer hopen ih =>
    -- A bracket opens a group in the innermost one.
    obtain ⟨⟨g, r⟩, hinner, hmap⟩ := Option.map_eq_some_iff.mp h
    obtain ⟨rfl, rfl⟩ := Prod.mk.inj hmap
    obtain ⟨x, rfl, rfl⟩ :=
      exists_cons_of_length_lt hs (Nat.lt_succ_of_le (length_le_of_closeGroups hinner))
    rw [List.cons_append, closeGroups_open hne hopen, ih (hrest (a := [c]) hv) rfl hinner]
    rfl
  | case5 => simp at h
  | case6 b bs c s hne hopen f₁ r hpiece hlt ih =>
    obtain ⟨⟨g, r'⟩, hinner, hmap⟩ := Option.map_eq_some_iff.mp h
    obtain ⟨rfl, rfl⟩ := Prod.mk.inj hmap
    obtain ⟨x, rfl, rfl⟩ :=
      exists_cons_of_length_lt hs (Nat.lt_of_le_of_lt (length_le_of_closeGroups hinner) hlt)
    -- The piece leaves a part of the sealed text that is not empty, for the group is still open.
    obtain rfl : r = (g.text ++ w) ++ t := by
      rw [(lossless_run leaf).closeGroups _ _ _ _ hinner, List.append_assoc]
    have hu : g.text ++ w ≠ [] := by
      intro hnil
      have hshorter := length_lt_of_closeGroups hinner
      rw [hnil, List.length_append, List.nil_append] at hshorter
      omega
    have htext : c :: x = f₁.text ++ (g.text ++ w) := by
      have hsplit := lossless_run leaf _ _ _ hpiece
      rwa [← List.cons_append, ← List.append_assoc, List.append_cancel_right_eq] at hsplit
    have hsealed := hv (List.cons_ne_nil c x)
    have hfirst := hleaf (c :: x) _ t f₁ hsealed (avoids_nil hu) hpiece t'
    have hbehind := ih (fun hne => hrest (a := f₁.text) (fun _ => htext ▸ hsealed) hne) rfl hinner
    rw [List.cons_append] at hfirst ⊢
    rw [closeGroups_leaf bs hne hopen hfirst (length_lt_of_consumes hconsumes hfirst), hbehind]
    rfl
  | case7 => simp at h

/-- Groups do not depend on the text behind, if their leaves do not. -/
theorem keeps_balanced {leaf : Pattern Rule} (hleaf : Keeps (Avoids []) leaf)
    (hconsumes : leaf.consumes = true) : Keeps B (balanced leaf) := by
  intro v w t f hv _ h t'
  obtain ⟨c, x, rfl⟩ := List.exists_cons_of_ne_nil hv.ne_nil
  rw [List.cons_append, run, group] at h ⊢
  split at h
  · simp at h
  · rename_i closer hopen
    obtain ⟨⟨g, r⟩, hinner, hmap⟩ := Option.map_eq_some_iff.mp h
    obtain ⟨rfl, rfl⟩ := Prod.mk.inj hmap
    have hx : x ≠ [] → Sealed x := hv.of_append (a := [c])
    rw [keeps_closeGroups hleaf hconsumes hx hinner t']
    rfl

end UdfBridge.Source
