import UdfBridge.Proofs.Source.Sealed

/-!
# The rules before the body

The rules up to the header, from the blanks to the lead, each with what its matches in a sealed text
need of the text that they leave. A header needs nothing (`keeps_defHeader`), for it ends with a
colon; blank lines and decorators need a header behind them (`keeps_leadPattern`).

Blanks are read before it is known what they stand before. So for the places where a list or the
lead may end, the lemmas say what the blanks lead to, whatever stands behind the sealed text
(`LeadsTo`).
-/

namespace UdfBridge.Source

open Grammar
open Grammar.Pattern

variable {p q skip : Pattern Rule} {B : List Char → Prop} {cs : List Char} {u v w t : List Char}
  {f : Forest Rule}

/-! ## Blanks -/

/-- What keeps a line break from a match is one character, so it stands in the sealed text. -/
theorem drops_lineBreak : Drops lineBreak :=
  drops_chr.orElse ((drops_chr.chr_seq (by decide)).orElse drops_chr)

/-- A line break does not depend on the text behind, for a sealed text does not end with a carriage
return. -/
theorem keeps_lineBreak : Keeps B lineBreak :=
  keeps_chr.orElse_drops
    (keeps_word.orElse_drops keeps_chr (drops_chr.chr_seq (by decide))) drops_chr

/-- What keeps a continuation from a match stands in the sealed text: the backslash, or no line
break behind it. -/
theorem drops_continuation : Drops continuation := drops_lineBreak.chr_seq (by decide)

/-- A continuation does not depend on the text behind. -/
theorem keeps_continuation : Keeps B continuation := keeps_chr.seq_plain keeps_lineBreak (.inl rfl)

/-- What keeps a blank within a line from a match stands in the sealed text. -/
theorem drops_inlineSpace : Drops inlineSpace := drops_one.orElse drops_continuation

/-- A blank within a line does not depend on the text behind. -/
theorem keeps_inlineSpace : Keeps B inlineSpace := keeps_one.orElse_drops keeps_continuation drops_one

/-- Blanks within a line do not depend on the text behind, if they end in the sealed text. -/
theorem keeps_inlineSpaces : Keeps (Avoids []) (star inlineSpace) :=
  keeps_inlineSpace.star_drops rfl drops_inlineSpace

/-- What keeps a comment from a match is that its sign is missing. -/
theorem drops_comment : Drops comment := (drops_of_isTotal rfl).chr_seq (by decide)

/-- A comment that ends in the sealed text does not depend on the text behind. -/
theorem keeps_comment : Keeps (Avoids []) comment :=
  keeps_chr.seq_plain (keeps_one.star_drops rfl drops_one) (.inr fun _ => Avoids.ne_nil)

/-- What keeps a blank between items from a match stands in the sealed text. -/
theorem drops_gap : Drops gap := drops_inlineSpace.orElse (drops_lineBreak.orElse drops_comment)

/-- Blanks between items do not depend on the text behind, if they end in the sealed text. -/
theorem keeps_gaps : Keeps (Avoids []) (star gap) := by
  have hgap : Keeps (Avoids []) gap := keeps_inlineSpace.orElse_drops
    (keeps_lineBreak.orElse_drops keeps_comment drops_lineBreak) drops_inlineSpace
  exact hgap.star_drops rfl drops_gap

/-- The text is read by `skip` up to one of the characters of `P`, whatever stands behind it. -/
def LeadsTo (skip : Pattern Rule) (P : Char → Prop) (u : List Char) : Prop :=
  ∃ c, P c ∧ ∃ g x, ∀ t, skip.run (u ++ t) = some (g, (c :: x) ++ t)

/-- What is read up to one of some characters is read up to one of more. -/
theorem LeadsTo.mono {P Q : Char → Prop} (h : LeadsTo skip P u) (hPQ : ∀ c, P c → Q c) :
    LeadsTo skip Q u := by
  obtain ⟨c, hc, g, x, hrun⟩ := h
  exact ⟨c, hPQ c hc, g, x, hrun⟩

/-- What `skip` leads to is where the next pattern starts. -/
theorem leadsTo_of_run {P : Char → Prop} (hskip : Keeps (Avoids []) skip) (hu : Sealed u)
    (hrest : q.consumes = true ∨ w ≠ []) (hq : ∀ c s, q.run (c :: s) ≠ none → P c)
    (h : (seq skip q).run (u ++ t) = some (f, w ++ t)) : LeadsTo skip P u := by
  obtain ⟨x, f₁, f₂, hfirst, hsecond, -⟩ := exists_between h
  obtain ⟨c, y, rfl⟩ := List.exists_cons_of_ne_nil (ne_nil_of_run hrest hsecond)
  refine ⟨c, hq c (y ++ t) ?_, f₁, y, hskip u _ t f₁ hu (avoids_nil (by simp)) hfirst⟩
  rw [← List.cons_append, hsecond]
  simp

/-- Where `skip` leads, no pattern matches that does not start there. -/
theorem LeadsTo.run_seq_eq_none {P : Char → Prop} (h : LeadsTo skip P u)
    (hq : ∀ c, P c → q.peek c = some false) (t : List Char) : (seq skip q).run (u ++ t) = none := by
  obtain ⟨c, hc, g, x, hrun⟩ := h
  rw [run, hrun]
  show ((q.run (c :: (x ++ t))).map _) = none
  rw [run_of_peek_false (hq c hc)]
  rfl

/-! ## Literals, groups and expressions -/

/-- In a sealed text there are no three quotes for a literal. -/
theorem run_tripleQuoted_eq_none {a : Char} (ha : a ∈ quotes) (hv : Sealed v) :
    (tripleQuoted a).run (v ++ t) = none := by
  by_contra hne
  obtain ⟨⟨f, r⟩, hrun⟩ := Option.ne_none_iff_exists'.mp hne
  -- The quotes at the start would stand in the sealed text, or go over its end.
  have hprefix : [a, a, a] <+: v ++ t := by
    rw [lossless_run _ _ _ _ hrun]
    exact (quotes_prefix_of_tripleQuoted hrun).trans (List.prefix_append _ _)
  rcases List.prefix_or_prefix_of_prefix hprefix (List.prefix_append v t) with h | h
  · exact hv.quotes a ha h.isInfix
  · -- Then the colon at the end of the text is one of the quotes.
    have hcolon := h.subset (hv.colon.subset List.mem_cons_self)
    have ha' : a = '"' ∨ a = '\'' := by simpa [quotes] using ha
    rcases ha' with rfl | rfl <;> simp at hcolon

/-- A sealed text starts no string between three quotes, whatever stands behind it. -/
theorem drops_tripleQuoted {a : Char} (ha : a ∈ quotes) : Drops (tripleQuoted a) :=
  fun _ _ hv _ _ => run_tripleQuoted_eq_none ha hv

/-- A string between three quotes does not start in a sealed text. -/
theorem keeps_tripleQuoted {a : Char} (ha : a ∈ quotes) : Keeps B (tripleQuoted a) := by
  intro v w t f hv _ h
  rw [run_tripleQuoted_eq_none ha hv] at h
  simp at h

/-- A string between two quotes does not depend on the text behind, for both quotes stand in the
sealed text. -/
theorem keeps_quoted {a : Char} (ha : a ∈ quotes) : Keeps B (quoted a) := by
  have hpiece : Keeps (Avoids []) (piece (plainQuoted a)) :=
    (keeps_chr.seq_plain keeps_one (.inl rfl)).orElse_drops keeps_one
      (drops_one.chr_seq (by decide))
  -- The quote that closes the string is no piece, whatever stands behind it.
  have hend : (piece (plainQuoted a)).peek a = some false := by
    have ha' : a = '"' ∨ a = '\'' := by simpa [quotes] using ha
    rcases ha' with rfl | rfl <;> decide
  have hpieces : Keeps (fun w => ∃ x, w = a :: x) (star (piece (plainQuoted a))) := by
    refine hpiece.star rfl (fun _ _ _ _ hv _ => avoids_nil hv.ne_nil) (fun w hw => ?_)
      fun w t _ hw _ t' => ?_
    · obtain ⟨x, rfl⟩ := hw
      exact ⟨by simp, avoids_nil (by simp)⟩
    · obtain ⟨x, rfl⟩ := hw
      exact run_of_peek_false hend _
  have hclose : Keeps B (seq (star (piece (plainQuoted a))) (chr a)) := by
    exact hpieces.seq_of keeps_chr (.inl rfl) fun u w t f hu _ hrun =>
      ⟨w, eq_cons_of_chr hu.ne_nil hrun⟩
  exact keeps_chr.seq_plain hclose (.inl rfl)

/-- A string literal does not depend on the text behind. -/
theorem keeps_stringLiteral : Keeps B stringLiteral := by
  have hquoted : Keeps B (orElse (quoted '"') (quoted '\'')) := by
    refine .orElse_apart ['"'] (keeps_quoted (by decide)) (keeps_quoted (by decide))
      (fun c hc => ?_) (by decide)
    simp [quoted, inOrder, peek, chr, List.mem_singleton.not.mp hc]
  exact (keeps_tripleQuoted (by decide)).orElse_drops
    ((keeps_tripleQuoted (by decide)).orElse_drops hquoted (drops_tripleQuoted (by decide)))
    (drops_tripleQuoted (by decide))

/-- A leaf of a group does not depend on the text behind, if it ends in the sealed text. -/
theorem keeps_groupLeaf : Keeps (Avoids []) groupLeaf := by
  have hplain : Keeps (Avoids []) (orElse comment (noneOf ('#' :: brackets ++ quotes))) :=
    keeps_comment.orElse_drops keeps_one drops_comment
  exact .orElse_apart quotes keeps_stringLiteral hplain (fun c => peek_stringLiteral) (by decide)

/-- A group in brackets does not depend on the text behind. -/
theorem keeps_bracketGroup : Keeps B bracketGroup := keeps_balanced keeps_groupLeaf rfl

/-- A character that is excluded is seen to be refused. -/
theorem peek_noneOf {cs : List Char} {c : Char} (h : c ∈ cs) :
    (noneOf cs : Pattern Rule).peek c = some false := by
  have hcontains : cs.contains c = true := List.contains_iff_mem.mpr h
  simp [noneOf, peek, h]

/-- A character that is no opening bracket is seen to start no group. -/
theorem peek_bracketGroup {c : Char} (h : c ∉ ['(', '[', '\x7b']) :
    bracketGroup.peek c = some false := by
  have hne : c ≠ '(' ∧ c ≠ '[' ∧ c ≠ '\x7b' := by simpa using h
  simp [bracketGroup, peek, closer?, hne]

variable {ends : List Char}

/-- A piece of an expression does not depend on the text behind. -/
theorem keeps_exprPiece : Keeps B (exprPiece ends) := by
  have hplain : ∀ c ∈ openers, (noneOf (notPlain ends) : Pattern Rule).peek c = some false :=
    fun c hc => peek_noneOf (subset_notPlain (by decide) hc)
  have hgroup : Keeps B (orElse bracketGroup (noneOf (notPlain ends))) :=
    .orElse_apart ['(', '[', '\x7b'] keeps_bracketGroup keeps_one (fun c => peek_bracketGroup)
      fun c hc => hplain c (List.mem_append_right _ hc)
  refine .orElse_apart quotes keeps_stringLiteral hgroup (fun c => peek_stringLiteral) fun c hc => ?_
  have hother : ∀ c ∈ quotes, bracketGroup.peek c = some false := by decide
  rw [peek, hother c hc]
  exact hplain c (List.mem_append_left _ hc)

/-- Before a character that starts neither a literal nor a group, it is the character that keeps a
piece from a match. -/
theorem exprPiece_stops (hw : Avoids openers w) (h : (exprPiece ends).run (w ++ t) = none)
    (t' : List Char) : (exprPiece ends).run (w ++ t') = none := by
  obtain ⟨c, hc, x, rfl⟩ := hw
  rw [List.cons_append, run_exprPiece hc] at h ⊢
  split at h
  · rename_i hmem
    rw [if_pos hmem]
  · simp at h

/-- An expression does not depend on the text behind, if it ends before a character that starts no
literal and no group. -/
theorem keeps_expr : Keeps (Avoids openers) (plus (exprPiece ends)) := by
  have hpieces : Keeps (Avoids openers) (star (exprPiece ends)) :=
    keeps_exprPiece.star_plain rfl fun w t _ hw => exprPiece_stops hw
  exact keeps_exprPiece.seq_plain hpieces (.inr fun _ => Avoids.ne_nil)

/-! ## Decorators -/

/-- The expression of a decorator does not depend on the text behind, if it ends before such a
character. -/
theorem keeps_decoratorExpr : Keeps (Avoids openers) decoratorExpr := by
  have hpiece : ∀ {B}, Keeps B (orElse continuation (exprPiece lineEnds)) :=
    keeps_continuation.orElse_drops keeps_exprPiece drops_continuation
  have hpieces : Keeps (Avoids openers) (star (orElse continuation (exprPiece lineEnds))) := by
    refine hpiece.star_plain rfl fun w t hsealed hw hnone t' => ?_
    obtain ⟨hcontinuation, hexpr⟩ := run_orElse_eq_none.mp hnone
    exact run_orElse_eq_none.mpr
      ⟨drops_continuation w t hsealed hcontinuation t', exprPiece_stops hw hexpr t'⟩
  exact (hpiece.seq_plain hpieces (.inr fun _ => Avoids.ne_nil)).node

/-- The end of a line with at most a comment. -/
theorem keeps_lineEnd : Keeps B (seq (optional comment) lineBreak) := by
  have hcomment : Keeps (Avoids ['#']) (optional comment) := by
    refine (keeps_comment.mono fun w hw => hw.mono (by simp)).optional fun w t hw => ?_
    obtain ⟨c, hc, x, rfl⟩ := hw
    exact run_of_peek_false (by simpa [comment, peek, chr] using hc) _
  exact hcomment.seq keeps_lineBreak (.inl rfl) fun c hc => .inl (by
    obtain rfl := List.mem_singleton.mp hc
    decide)

/-- A blank line does not depend on the text behind. -/
theorem keeps_blankLine : Keeps B blankLine := keeps_inlineSpaces.seq_plain keeps_lineEnd (.inl rfl)

/-- A decorator does not depend on the text behind, for its line ends in the sealed text. -/
theorem keeps_decorator : Keeps B decorator := by
  have hexpr : Keeps B (seq decoratorExpr (seq (optional comment) lineBreak)) :=
    keeps_decoratorExpr.seq keeps_lineEnd (.inl rfl) fun c hc => .inl ((by decide :
      ∀ c ∈ openers, (seq (optional comment) lineBreak).peek c = some false) c hc)
  exact (keeps_inlineSpaces.seq_plain (keeps_chr.seq_plain (keeps_inlineSpaces.seq_plain hexpr
    (.inl rfl)) (.inl rfl)) (.inl rfl)).node

/-! ## Parameters -/

/-- An optional part that a character marks. -/
theorem keeps_optional_marked {a : Char} (hp : Keeps (Avoids cs) (seq (chr a) q)) (ha : a ∈ cs) :
    Keeps (Avoids cs) (optional (seq (chr a) q)) := by
  refine hp.optional fun w t hw => ?_
  obtain ⟨c, hc, x, rfl⟩ := hw
  have hne : c ≠ a := fun heq => hc (heq ▸ ha)
  exact run_of_peek_false (by simp [peek, chr, hne]) _

/-- An annotation, or the lack of one, does not depend on the text behind, if what follows could be
no part of it. -/
theorem keeps_hint : Keeps (Avoids (':' :: openers)) (optional hint) := by
  have hexpr : Keeps (Avoids (':' :: openers)) hintExpr :=
    keeps_expr.node.mono fun w hw => hw.mono (List.subset_cons_self _ _)
  have hgaps : Keeps (Avoids (':' :: openers)) (seq (star gap) hintExpr) :=
    keeps_gaps.seq_plain hexpr (.inl rfl)
  exact keeps_optional_marked (keeps_chr.seq_plain hgaps (.inl rfl)) List.mem_cons_self

/-- A default value, or the lack of one, does not depend on the text behind, if what follows could
be no part of it. -/
theorem keeps_defaultValue : Keeps (Avoids stops) (optional defaultValue) := by
  have hexpr : Keeps (Avoids stops) defaultExpr :=
    keeps_expr.node.mono fun w hw => hw.mono (by decide)
  have hgaps : Keeps (Avoids stops) (seq (star gap) defaultExpr) :=
    keeps_gaps.seq_plain hexpr (.inl rfl)
  exact keeps_optional_marked (keeps_chr.seq_plain hgaps (.inl rfl)) (by decide)

/-- A name does not depend on the text behind, if it ends in the sealed text. -/
theorem keeps_identifier : Keeps (Avoids []) identifier := by
  have hletters : Keeps (Avoids []) (star (one Text.isXidContinue)) :=
    keeps_one.star_drops rfl drops_one
  exact (keeps_one.seq_plain hletters (.inr fun _ => Avoids.ne_nil)).node

/-- A parameter does not depend on the text behind, if what follows could be no part of it. -/
theorem keeps_parameter : Keeps (Avoids stops) parameter := by
  have hdefault : Keeps (Avoids stops) (seq (star gap) (optional defaultValue)) :=
    keeps_gaps.seq_plain keeps_defaultValue (.inr fun _ => Avoids.ne_nil)
  have hhint : Keeps (Avoids stops)
      (seq (optional hint) (seq (star gap) (optional defaultValue))) := by
    refine keeps_hint.seq hdefault (.inr fun _ => Avoids.ne_nil) fun c hc => .inr ⟨?_, ?_⟩
    · exact (by decide : ∀ c ∈ ':' :: openers,
        (seq (star gap) (optional defaultValue)).peek c = some true) c hc
    · rintro x ⟨d, hd, y, heq⟩
      obtain ⟨rfl, -⟩ := List.cons.inj heq
      exact hd (List.mem_cons_of_mem _ hc)
  exact (keeps_identifier.seq_plain (keeps_gaps.seq_plain hhint (.inr fun _ => Avoids.ne_nil))
    (.inr fun _ => Avoids.ne_nil)).node

/-- A variadic parameter, behind its stars. -/
theorem keeps_variadic (a : Char) (as : List Char) {rule : Rule} :
    Keeps (Avoids (':' :: openers))
      (node rule (inOrder [word (a :: as), star gap, identifier, star gap, optional hint])) := by
  have hhint : Keeps (Avoids (':' :: openers)) (seq (star gap) (optional hint)) :=
    keeps_gaps.seq_plain keeps_hint (.inr fun _ => Avoids.ne_nil)
  exact (keeps_word.seq_plain (keeps_gaps.seq_plain (keeps_identifier.seq_plain hhint
    (.inr fun _ => Avoids.ne_nil)) (.inr fun _ => Avoids.ne_nil)) (.inr fun _ => Avoids.ne_nil)).node

/-- What stands behind an item: a comma or the closing parenthesis, perhaps after blanks. -/
def Closes : List Char → Prop :=
  LeadsTo (star gap) fun c => c = ',' ∨ c = ')'

/-- No item goes on where it is closed. -/
theorem Closes.avoids (hw : Closes w) : Avoids ('*' :: stops) w := by
  obtain ⟨c, hc, g, x, hrun⟩ := hw
  have hrest := hrun []
  rw [List.append_nil, List.append_nil] at hrest
  cases w with
  | nil => simp [run_star, many_of_none (show gap.run [] = none from rfl)] at hrest
  | cons d y =>
    refine ⟨d, fun hd => ?_, y, rfl⟩
    rw [run_of_peek_true ((by decide : ∀ c ∈ '*' :: stops, (star gap).peek c = some true) d hd),
      Option.some.injEq, Prod.mk.injEq, List.cons.injEq] at hrest
    obtain ⟨-, rfl, -⟩ := hrest
    rcases hc with rfl | rfl <;> simp [stops, openers, quotes] at hd

/-- A variadic parameter behind its stars. -/
def behindStars : Pattern Rule :=
  inOrder [star gap, identifier, star gap, optional hint]

/-- The items that are no variadic parameters. -/
def fixedItem : Pattern Rule :=
  orElse keywordMarker (orElse positionalMarker parameter)

/-- A character with something behind it is refused where that is. -/
theorem run_chr_seq_eq_none {c : Char} {s : List Char} (h : q.run s = none) :
    (seq (chr c) q).run (c :: s) = none := by
  rw [run_seq_of_some (run_chr.mpr ⟨rfl, rfl⟩), h]
  rfl

/-- A pattern is refused as a node where it is refused. -/
theorem run_node_eq_none {rule : Rule} {s : List Char} :
    (node rule p).run s = none ↔ p.run s = none := by
  rw [run, Option.map_eq_none_iff]

/-- Where a star is closed stands no name that it could belong to. -/
theorem run_varPositional_of_closes (hw : Closes w) : varPositional.run ('*' :: (w ++ t)) = none := by
  have hname : behindStars.run (w ++ t) = none := by
    refine LeadsTo.run_seq_eq_none hw (fun c hc => ?_) t
    rcases hc with rfl | rfl <;> decide
  exact run_node_eq_none.mpr (run_chr_seq_eq_none hname)

/-- One star alone starts no parameter for the remaining keyword arguments. -/
theorem run_varKeyword_eq_none {d : Char} (hd : d ≠ '*') (s : List Char) :
    varKeyword.run ('*' :: d :: s) = none := by
  have hstars : (word ['*', '*'] : Pattern Rule).run ('*' :: d :: s) = none :=
    run_chr_seq_eq_none (run_of_peek_false (by simp [peek, chr, word, hd]) s)
  refine run_node_eq_none.mpr ?_
  show (seq (word ['*', '*']) behindStars).run ('*' :: d :: s) = none
  rw [run, hstars]

/-- A star that no variadic parameter takes is the marker. -/
theorem eq_of_run_fixedItem {x : List Char}
    (h : fixedItem.run ('*' :: (x ++ t)) = some (f, w ++ t)) : w = x := by
  have hmarker : fixedItem.run ('*' :: (x ++ t)) =
      some (.node .keywordMarker (.char '*' .nil) .nil, x ++ t) := rfl
  rw [hmarker, Option.some.injEq, Prod.mk.injEq, List.append_cancel_right_eq] at h
  exact h.2.symm

/-- An item of the list does not depend on the text behind, if a comma or the closing parenthesis
follows. -/
theorem keeps_parameterItem : Keeps Closes parameterItem := by
  -- What closes an item in the list stops its parts too.
  have hclosed : ∀ {cs}, cs ⊆ '*' :: stops → ∀ w, Closes w → Avoids cs w :=
    fun hcs w hw => hw.avoids.mono hcs
  have hfixed : Keeps Closes fixedItem :=
    keeps_chr.node.orElse_drops (keeps_chr.node.orElse_drops
      (keeps_parameter.mono (hclosed (by decide))) drops_chr.node) drops_chr.node
  have hpositional : Keeps Closes varPositional :=
    (keeps_variadic '*' []).mono (hclosed (by decide))
  have hkeyword : Keeps Closes varKeyword :=
    (keeps_variadic '*' ['*']).mono (hclosed (by decide))
  -- A star is the marker only where no name can follow, whatever the text goes on with.
  have hstarred : Keeps Closes (orElse varPositional fixedItem) := by
    refine hpositional.orElse hfixed fun v w t f hv hw _ hrun t' => ?_
    obtain ⟨c, x, rfl⟩ := List.exists_cons_of_ne_nil hv.ne_nil
    by_cases hc : c = '*'
    · subst hc
      obtain rfl := eq_of_run_fixedItem hrun
      exact run_varPositional_of_closes hw
    · exact run_of_peek_false (by simp [varPositional, inOrder, peek, chr, hc]) (x ++ t')
  refine hkeyword.orElse hstarred fun v w t f hv hw _ hrun t' => ?_
  -- There are no two stars at the start, for the other items take one at most.
  obtain ⟨c, x, rfl⟩ := List.exists_cons_of_ne_nil hv.ne_nil
  by_cases hc : c = '*'
  · subst hc
    obtain ⟨d, y, rfl⟩ := List.exists_cons_of_ne_nil (hv.tail (by decide)).ne_nil
    have hd : d ≠ '*' := by
      rintro rfl
      have hname : varPositional.run ('*' :: '*' :: (y ++ t)) = none :=
        run_node_eq_none.mpr (run_chr_seq_eq_none (run_of_peek_false (by decide) (y ++ t)))
      rcases run_orElse.mp hrun with hrun | ⟨-, hrun⟩
      · exact absurd (hname.symm.trans hrun) (by simp)
      · obtain rfl := eq_of_run_fixedItem hrun
        obtain ⟨e, he, z, heq⟩ := hw.avoids
        obtain ⟨rfl, -⟩ := List.cons.inj heq
        simp at he
    exact run_varKeyword_eq_none hd (y ++ t')
  · exact run_of_peek_false (by simp [varKeyword, inOrder, word, peek, chr, hc]) (x ++ t')

/-- What stands behind an item is not empty. -/
theorem Closes.ne_nil (hw : Closes w) : w ≠ [] := hw.avoids.ne_nil

/-- A comma with one more item does not depend on the text behind, if another one or the closing
parenthesis follows. -/
theorem keeps_nextItem : Keeps Closes nextItem :=
  keeps_gaps.seq_plain (keeps_chr.seq_plain (keeps_gaps.seq_plain keeps_parameterItem
    (.inr fun _ => Closes.ne_nil)) (.inr fun _ => Closes.ne_nil)) (.inr fun _ => Closes.ne_nil)

/-- Before another item stands a comma. -/
theorem closes_of_nextItem (hv : Sealed v) (h : nextItem.run (v ++ t) = some (f, w ++ t)) :
    Closes v := by
  refine leadsTo_of_run keeps_gaps hv (.inl rfl) (fun c s hrun => .inl ?_) h
  by_contra hne
  exact hrun (run_of_peek_false (by simp [inOrder, peek, chr, hne]) s)

/-- The comma that may stand behind the last item. -/
def lastComma : Pattern Rule :=
  seq (star gap) (chr ',')

/-- What stands behind the last item: the closing parenthesis, perhaps after blanks and a comma. -/
def Ends (w : List Char) : Prop :=
  Closes w ∧ ∀ t, nextItem.run (w ++ t) = none

/-- The end of the list, perhaps after blanks. -/
def StopsList : List Char → Prop :=
  LeadsTo (star gap) (· = ')')

/-- Where the list stops no other item follows. -/
theorem ends_of_stopsList (h : StopsList w) : Ends w := by
  refine ⟨LeadsTo.mono h fun c => .inr, LeadsTo.run_seq_eq_none h ?_⟩
  rintro c rfl
  decide

/-- The text starts with the closing parenthesis. -/
def StartsWithParenthesis (w : List Char) : Prop := ∃ x, w = ')' :: x

/-- A text that starts with the closing parenthesis is not empty. -/
theorem StartsWithParenthesis.ne_nil (h : StartsWithParenthesis w) : w ≠ [] := by
  obtain ⟨x, rfl⟩ := h
  simp

/-- Blanks up to the closing parenthesis lead to the end of the list. -/
theorem stopsList_of_gaps (hu : Sealed u) (hw : StartsWithParenthesis w)
    (h : (star gap).run (u ++ t) = some (f, w ++ t)) : StopsList u := by
  obtain ⟨x, rfl⟩ := hw
  exact ⟨')', rfl, f, x, keeps_gaps u _ t f hu (avoids_nil (by simp)) h⟩

/-- The comma that may stand behind the last item does not depend on the text behind. -/
theorem keeps_listEnd : Keeps StartsWithParenthesis (seq (optional lastComma) (star gap)) := by
  have hcomma : Keeps StopsList (optional lastComma) := by
    refine (keeps_gaps.seq_plain keeps_chr (.inl rfl)).optional fun w t hw =>
      LeadsTo.run_seq_eq_none hw ?_ t
    rintro c rfl
    decide
  exact hcomma.seq_of (keeps_gaps.mono fun w hw => avoids_nil hw.ne_nil) (.inr fun _ h => h.ne_nil)
    fun u w t f hu hw hrun => stopsList_of_gaps hu hw hrun

/-- The items end before the end of the list. -/
theorem ends_of_listEnd (hu : Sealed u) (hw : StartsWithParenthesis w)
    (h : (seq (optional lastComma) (star gap)).run (u ++ t) = some (f, w ++ t)) : Ends u := by
  obtain ⟨x, f₁, f₂, hcomma, hgaps, -, rfl, -⟩ := exists_between h
  have hx : Sealed x := hu.of_append (ne_nil_of_run (.inr hw.ne_nil) hgaps)
  have hstops := stopsList_of_gaps hx hw hgaps
  rcases run_orElse.mp hcomma with hcomma | ⟨-, hnil⟩
  · -- Behind the comma stands the parenthesis, which starts no item.
    obtain ⟨y, g₁, g₂, hgaps', hsign, -⟩ := exists_between hcomma
    obtain rfl := eq_cons_of_chr (ne_nil_of_run (.inl rfl) hsign) hsign
    have hlead := keeps_gaps _ _ t g₁ hu (avoids_nil (by simp)) hgaps'
    refine ⟨⟨',', .inl rfl, g₁, x, hlead⟩, fun t' => ?_⟩
    have hitem : (seq (star gap) parameterItem).run (x ++ t') = none := by
      refine LeadsTo.run_seq_eq_none hstops ?_ t'
      rintro c rfl
      decide
    show (seq (star gap) (seq (chr ',') (seq (star gap) parameterItem))).run (_ ++ t') = none
    rw [run_seq_of_some (hlead t'), List.cons_append, run_chr_seq_eq_none hitem]
    rfl
  · obtain ⟨rfl, hrest⟩ := run_empty.mp hnil
    exact ends_of_stopsList hstops

/-- The list of parameters does not depend on the text behind, for its parenthesis closes in the
sealed text. -/
theorem keeps_parameters : Keeps B parameters := by
  have hitems : Keeps Ends (star nextItem) :=
    keeps_nextItem.star rfl (fun v w t f hv hrun => closes_of_nextItem hv hrun)
      (fun w hw => ⟨hw.1.ne_nil, hw.1⟩) fun w t _ hw _ t' => hw.2 t'
  have hrest : Keeps StartsWithParenthesis
      (seq (seq (star nextItem) (optional lastComma)) (star gap)) :=
    (hitems.seq_of keeps_listEnd (.inr fun _ h => h.ne_nil) fun u w t f hu hw hrun =>
      ends_of_listEnd hu hw hrun).seq_assoc
  -- The grammar nests the list, so its end is not beside the blanks that follow.
  have hlist : Keeps StartsWithParenthesis (seq parameterList (star gap)) := by
    refine (keeps_parameterItem.seq_of hrest (.inr fun _ h => h.ne_nil)
      fun u w t f hu hw hrun => ?_).seq_assoc
    -- Behind the first item stands another one, or the end of the list.
    rw [run_seq_assoc] at hrun
    obtain ⟨x, f₁, f₂, hmany, hend, -, hux, -⟩ := exists_between hrun
    rw [run_star, Option.some.injEq] at hmany
    rcases many_cases rfl hmany with rfl | ⟨g, y, hnext⟩
    · exact (ends_of_listEnd hu hw hend).1
    · exact closes_of_nextItem hu hnext
  have hoptional : Keeps StartsWithParenthesis (optional (seq parameterList (star gap))) := by
    refine hlist.optional fun w t hw => ?_
    obtain ⟨x, rfl⟩ := hw
    exact run_of_peek_false (by decide) (x ++ t)
  have hclose : Keeps B (seq (optional (seq parameterList (star gap))) (chr ')')) := by
    exact hoptional.seq_of keeps_chr (.inl rfl) fun u w t f hu _ hrun =>
      ⟨w, eq_cons_of_chr hu.ne_nil hrun⟩
  exact (keeps_chr.seq_plain (keeps_gaps.seq_plain hclose (.inl rfl)) (.inl rfl)).node

/-! ## The header -/

/-- The type behind the arrow does not depend on the text behind, if what follows could be no part
of it. -/
theorem keeps_returnHint : Keeps (Avoids ('-' :: openers)) (optional returnHint) := by
  have hexpr : Keeps (Avoids ('-' :: openers)) (seq (star inlineSpace) returnExpr) :=
    keeps_inlineSpaces.seq_plain
      (keeps_expr.node.mono fun w hw => hw.mono (List.subset_cons_self _ _)) (.inl rfl)
  have hhint : Keeps (Avoids ('-' :: openers)) returnHint :=
    (keeps_word.seq_plain hexpr (.inl rfl)).node
  refine hhint.optional fun w t hw => ?_
  obtain ⟨c, hc, x, rfl⟩ := hw
  have hne : c ≠ '-' := fun heq => hc (heq ▸ List.mem_cons_self)
  exact run_of_peek_false (by simp [returnHint, inOrder, word, peek, chr, hne]) _

/-- What stands behind the name of a function. -/
theorem keeps_behindName : Keeps B (inOrder [
    star inlineSpace, parameters, star inlineSpace, optional returnHint, star inlineSpace,
    chr ':']) := by
  have hcolon : Keeps B (seq (star inlineSpace) (chr ':')) :=
    keeps_inlineSpaces.seq_plain keeps_chr (.inl rfl)
  have hhint : Keeps B (seq (optional returnHint) (seq (star inlineSpace) (chr ':'))) :=
    keeps_returnHint.seq hcolon (.inl rfl) fun c hc => .inl ((by decide :
      ∀ c ∈ '-' :: openers, (seq (star inlineSpace) (chr ':')).peek c = some false) c hc)
  have hparameters := keeps_parameters.seq_plain
    (keeps_inlineSpaces.seq_plain hhint (.inl rfl)) (.inl rfl)
  exact keeps_inlineSpaces.seq_plain hparameters (.inl rfl)

/-- The header behind its indentation. -/
def headerText : Pattern Rule :=
  inOrder [
    optional (seq asyncKeyword (plus inlineSpace)),
    word ['d', 'e', 'f'], plus inlineSpace, functionName, star inlineSpace,
    parameters, star inlineSpace, optional returnHint, star inlineSpace, chr ':']

/-- What a header is made of does not depend on the text behind its colon. -/
theorem keeps_headerText : Keeps B headerText := by
  have hspaces : Keeps (Avoids []) (plus inlineSpace) :=
    keeps_inlineSpace.seq_plain keeps_inlineSpaces (.inr fun _ => Avoids.ne_nil)
  have hfunction : Keeps (Avoids []) functionName := keeps_identifier.node
  have hname := hfunction.seq_plain (keeps_behindName (B := B)) (.inl rfl)
  have hdef : Keeps B (seq (word ['d', 'e', 'f']) _) :=
    keeps_word.seq_plain (hspaces.seq_plain hname (.inl rfl)) (.inl rfl)
  have hasync : Keeps (Avoids ['a']) (optional (seq asyncKeyword (plus inlineSpace))) := by
    refine Keeps.optional ?_ fun w t hw => ?_
    · exact keeps_word.node.seq_plain (hspaces.mono fun w hw => avoids_nil hw.ne_nil)
        (.inr fun _ => Avoids.ne_nil)
    · obtain ⟨c, hc, x, rfl⟩ := hw
      have hne : c ≠ 'a' := by simpa using hc
      exact run_of_peek_false (by simp [asyncKeyword, word, peek, chr, hne]) _
  exact hasync.seq hdef (.inl rfl) fun c hc => .inl (by
    obtain rfl := List.mem_singleton.mp hc
    rfl)

/-- A header does not depend on the text behind its colon. -/
theorem keeps_defHeader : Keeps B defHeader :=
  (keeps_inlineSpaces.seq_plain keeps_headerText (.inl rfl)).node

/-! ## The lead -/

/-- The characters at which a blank line or a decorator goes on behind its indentation. -/
def leadSigns : List Char := ['#', '\n', '\r', '@']

/-- No blank line starts here, whatever stands behind the text. -/
def OpensNoBlankLine (w : List Char) : Prop :=
  w ≠ [] ∧ ∀ t, blankLine.run (w ++ t) = none

/-- No blank line and no decorator starts here, whatever stands behind the text. -/
def OpensHeader (w : List Char) : Prop :=
  OpensNoBlankLine w ∧ ∀ t, decoratorGroup.run (w ++ t) = none

/-- A character that neither starts a comment nor ends a line is none of the end of a blank line. -/
theorem peek_lineEnd {c : Char} (hc : c ∉ ['#', '\n', '\r']) :
    (seq (optional comment) lineBreak).peek c = some false := by
  have hne : c ≠ '#' ∧ c ≠ '\n' ∧ c ≠ '\r' := by simpa using hc
  simp [Pattern.optional, comment, lineBreak, word, peek, chr, hne]

/-- Where a decorator stands in the sealed text no blank line starts. -/
theorem opensNoBlankLine_of_decoratorGroup (hv : Sealed v)
    (h : decoratorGroup.run (v ++ t) = some (f, w ++ t)) : OpensNoBlankLine v := by
  obtain ⟨x, f₁, f₂, hdecorator, -, -⟩ := exists_between h
  obtain ⟨g, hinner, -⟩ := run_node.mp hdecorator
  have hlead : LeadsTo (star inlineSpace) (· = '@') v := by
    refine leadsTo_of_run keeps_inlineSpaces hv (.inl rfl) (fun c s hrun => ?_) hinner
    by_contra hne
    exact hrun (run_of_peek_false (by simp [inOrder, peek, chr, hne]) s)
  refine ⟨hv.ne_nil, hlead.run_seq_eq_none ?_⟩
  rintro c rfl
  exact peek_lineEnd (by decide)

/-- Where a header stands in the sealed text neither a blank line nor a decorator starts. -/
theorem opensHeader_of_defHeader (hv : Sealed v) (h : defHeader.run (v ++ t) = some (f, w ++ t)) :
    OpensHeader v := by
  obtain ⟨g, hinner, -⟩ := run_node.mp h
  have hlead : LeadsTo (star inlineSpace) (· ∉ leadSigns) v := by
    refine leadsTo_of_run keeps_inlineSpaces hv (q := headerText) (.inl rfl)
      (fun c s hrun hc => hrun (run_of_peek_false ?_ s)) hinner
    exact (by decide : ∀ c ∈ leadSigns, headerText.peek c = some false) c hc
  refine ⟨⟨hv.ne_nil, hlead.run_seq_eq_none fun c hc => ?_⟩, fun t' => ?_⟩
  · exact peek_lineEnd fun hmem => hc ((by decide : ['#', '\n', '\r'] ⊆ leadSigns) hmem)
  · have hdecorator : decorator.run (v ++ t') = none := by
      refine run_node_eq_none.mpr (hlead.run_seq_eq_none (fun c hc => ?_) t')
      have hne : c ≠ '@' := by
        rintro rfl
        simp [leadSigns] at hc
      simp [inOrder, peek, chr, hne]
    rw [decoratorGroup, run, hdecorator]

/-- A lead does not depend on the text behind, if the header follows in the sealed text. -/
theorem keeps_leadPattern : Keeps OpensHeader leadPattern := by
  have hblanks : Keeps OpensNoBlankLine (star blankLine) :=
    (keeps_blankLine (B := Avoids [])).star rfl (fun _ _ _ _ hv _ => avoids_nil hv.ne_nil)
      (fun w hw => ⟨hw.1, avoids_nil hw.1⟩) fun w t _ hw _ t' => hw.2 t'
  have hgroup : Keeps OpensNoBlankLine decoratorGroup :=
    keeps_decorator.seq_plain hblanks (.inr fun _ hw => hw.1)
  have hgroups : Keeps OpensHeader (star decoratorGroup) :=
    hgroup.star rfl (fun v w t f hv hrun => opensNoBlankLine_of_decoratorGroup hv hrun)
      (fun w hw => ⟨hw.1.1, hw.1⟩) fun w t _ hw _ t' => hw.2 t'
  refine hblanks.seq_of hgroups (.inr fun _ hw => hw.1.1) fun u w t f hu hw hrun => ?_
  rw [run_star, Option.some.injEq] at hrun
  rcases many_cases rfl hrun with rfl | ⟨g, x, hfirst⟩
  · exact hw.1
  · exact opensNoBlankLine_of_decoratorGroup hu hfirst

end UdfBridge.Source
