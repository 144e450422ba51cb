import UdfBridge.Proofs.Source.Removal

/-!
# Headers without a character

What each rule up to the header does where a character at the start of a line is taken away. The
blanks of a line may be held up at a carriage return, and so may the content of a string between two
quotes and the expression of a decorator; what stands behind them does not match there. All other
rules leave the character ahead or next, and a header leaves it ahead (`alike_defHeader`).
-/

namespace UdfBridge.Source

open Grammar
open Grammar.Pattern
open Text (isIndent)

variable {x : Removal} {p : Pattern Rule}

/-- The characters that can be taken away. -/
def removables : List Char := [' ', '\t', '\r']

/-- A character of an indentation is a space or a tab. -/
theorem mem_removables_of_isIndent {c : Char} (h : isIndent c = true) : c = ' ' ∨ c = '\t' := by
  simpa [isIndent] using h

/-- The character that is taken away is one of those that can be. -/
theorem Removal.char_mem (x : Removal) : x.char ∈ removables := by
  rcases x.removable with h | ⟨h, -⟩
  · rcases mem_removables_of_isIndent h with h | h <;> rw [h] <;> decide
  · rw [h]
    decide

/-- What takes all characters that can be taken away takes this one. -/
theorem takes_char (h : ∀ c ∈ removables, Takes p c) : Takes p x.char :=
  h _ x.char_mem

/-- What takes a space and a tab takes every character of an indentation. -/
theorem takes_of_isIndent (hspace : Takes p ' ') (htab : Takes p '\t') :
    ∀ c, isIndent c = true → Takes p c := by
  intro c hc
  rcases mem_removables_of_isIndent hc with rfl | rfl
  · exact hspace
  · exact htab

/-! ## Blanks -/

/-- A line break is read alike. Behind it the character may be the next one. -/
theorem alike_lineBreak : Alike x.Ahead x.Near lineBreak.run :=
  (alike_one _).orElse
    (((alike_chr (by decide)).seq (alike_one _)).orElse (alike_one _))

/-- A carriage return is a line break by itself if no line feed follows. -/
theorem lineBreak_return {s : List Char} (h : s.head? ≠ some '\n') :
    lineBreak.run ('\r' :: s) = some (.char '\r' .nil, s) := by
  cases s with
  | nil => rfl
  | cons c s =>
    have hc : (c == '\n') = false := by simpa using h
    simp [lineBreak, word, chr, run, hc]

/-- A continuation is read alike. Behind its line break the character may be the next one. -/
theorem alike_continuation : Alike x.Ahead x.Near continuation.run :=
  (alike_chr (by decide)).seq alike_lineBreak

/-- A blank within a line is read alike. Behind a continuation the character may be the next one. -/
theorem alike_inlineSpace : Alike x.Ahead x.Near inlineSpace.run :=
  (alike_one _).orElse alike_continuation

/-- No blank within a line starts at the end of a line. -/
theorem refusesEnd_inlineSpace : RefusesEnd inlineSpace :=
  refusesEnd_of_peek rfl (by decide)

/-- Blanks within a line are read alike, and take the character with them where it is the next one.
Only a carriage return holds the one text up. -/
theorem alike_inlineSpaces : Alike x.Near x.Held (star inlineSpace).run :=
  alike_inlineSpace.star_near rfl (fun _ _ => Removal.Ahead.held)
    (.star_here_held (takes_of_isIndent (fun _ => rfl) fun _ => rfl) refusesEnd_inlineSpace rfl)

/-- The same from texts that have the character ahead. -/
theorem alike_inlineSpaces_ahead : Alike x.Ahead x.Held (star inlineSpace).run :=
  alike_inlineSpaces.ahead

/-- The same from texts that are held up, where no blanks follow. -/
theorem alike_inlineSpaces_held : Alike x.Held x.Held (star inlineSpace).run :=
  alike_inlineSpaces_ahead.held fun s hs => by
    rw [run_star, many_of_none (refusesEnd_inlineSpace s hs)]

/-- At least one blank within a line is read alike. -/
theorem alike_inlineSpaces_plus : Alike x.Ahead x.Held (plus inlineSpace).run :=
  alike_inlineSpace.seq alike_inlineSpaces

/-- A comment is read alike, for it ends before the line break. -/
theorem alike_comment : Alike x.Ahead x.Ahead comment.run :=
  (alike_chr (by decide)).seq ((alike_one_of (by decide)).star rfl)

/-- A blank between items is read alike. Behind a line break the character may be the next one. -/
theorem alike_gap : Alike x.Ahead x.Near gap.run :=
  alike_inlineSpace.orElse (alike_lineBreak.orElse alike_comment.near)

/-- The character is one blank inside brackets. -/
theorem run_gap (x : Removal) : gap.run (x.char :: x.rest) = some (.char x.char .nil, x.rest) := by
  rcases x.removable with h | ⟨h, hfeed, -⟩
  · rcases mem_removables_of_isIndent h with h | h <;> rw [h] <;> rfl
  · rw [h]
    exact run_orElse.mpr (.inr ⟨rfl, run_orElse.mpr (.inl (lineBreak_return hfeed))⟩)

/-- Blanks between items are read alike, and take the character with them where it is the next
one. -/
theorem alike_gaps : Alike x.Ahead x.Ahead (star gap).run :=
  (alike_gap.star_near rfl (fun _ _ => id) (.star_here (run_gap x))).ahead

/-! ## Strings, groups and expressions -/

/-- A string between three quotes is read alike; the character may be a part of it. -/
theorem alike_tripleQuoted {q : Char} (hq : q ∈ quotes) :
    Alike x.Ahead x.Ahead (tripleQuoted q).run := by
  have hquotes : Alike x.Ahead x.Ahead (word [q, q, q] : Pattern Rule).run :=
    alike_word ((by decide : ∀ q ∈ quotes, '\n' ∉ [q, q, q]) q hq)
  have hpiece : Alike x.Ahead x.Near
      (orElse (seq (chr '\\') any) (seq (notAhead (word [q, q, q])) any) : Pattern Rule).run :=
    ((alike_chr (by decide)).seq (alike_one _)).orElse (hquotes.notAhead.seq (alike_one _))
  have htakes : ∀ c ∈ removables,
      Takes (orElse (seq (chr '\\') any) (seq (notAhead (word [q, q, q])) any)) c := by
    intro c hc s
    have hcq : (c == q) = false :=
      (by decide : ∀ q ∈ quotes, ∀ c ∈ removables, (c == q) = false) q hq c hc
    have hescape : (c == '\\') = false :=
      (by decide : ∀ c ∈ removables, (c == '\\') = false) c hc
    simp [word, chr, any, run, hcq, hescape]
  have hcontent := hpiece.star_near rfl (fun _ _ => id) (.star_here (takes_char htakes _))
  exact hquotes.seq (hcontent.ahead.seq hquotes)

/-- A string between two quotes is read alike; the character may be a part of it. -/
theorem alike_quoted {q : Char} (hq : q ∈ quotes) : Alike x.Ahead x.Ahead (quoted q).run := by
  have hfeed : q ∉ lineEnds := (by decide : ∀ q ∈ quotes, q ∉ lineEnds) q hq
  have hquote : Alike x.Ahead x.Ahead (chr q : Pattern Rule).run :=
    alike_chr fun h => hfeed (h ▸ by decide)
  have hpiece : Alike x.Ahead x.Near
      (orElse (seq (chr '\\') any) (noneOf (q :: lineEnds)) : Pattern Rule).run :=
    ((alike_chr (by decide)).seq (alike_one _)).orElse (alike_one _)
  -- A blank is a plain piece of the string, so one of them less does not end it.
  have htakes : ∀ c ∈ [' ', '\t'],
      Takes (orElse (seq (chr '\\') any) (noneOf (q :: lineEnds))) c := by
    intro c hc s
    have hcq : c ≠ q := (by decide : ∀ q ∈ quotes, ∀ c ∈ [' ', '\t'], c ≠ q) q hq c hc
    have hend : c ≠ '\\' ∧ c ∉ lineEnds :=
      (by decide : ∀ c ∈ [' ', '\t'], c ≠ '\\' ∧ c ∉ lineEnds) c hc
    simp [noneOf, chr, run, hcq, hend]
  have hrefuses : RefusesEnd (orElse (seq (chr '\\') any) (noneOf (q :: lineEnds))) :=
    refusesEnd_of_peek rfl fun c hc =>
      (by decide : ∀ q ∈ quotes, ∀ c ∈ lineEnds,
        (orElse (seq (chr '\\') any) (noneOf (q :: lineEnds)) : Pattern Rule).peek c = some false)
        q hq c hc
  have hcontent := hpiece.star_near rfl (fun _ _ => Removal.Ahead.held)
    (.star_here_held (takes_of_isIndent (htakes _ (by decide)) (htakes _ (by decide))) hrefuses rfl)
  have hclose : RefusesEnd (chr q) := refusesEnd_of_peek rfl fun c hc =>
    (by decide : ∀ q ∈ quotes, ∀ c ∈ lineEnds, (chr q : Pattern Rule).peek c = some false) q hq c hc
  exact hquote.seq (hcontent.ahead.seq (hquote.of_held hclose))

/-- A string literal is read alike. -/
theorem alike_stringLiteral : Alike x.Ahead x.Ahead stringLiteral.run :=
  (alike_tripleQuoted (by decide)).orElse ((alike_tripleQuoted (by decide)).orElse
    ((alike_quoted (by decide)).orElse (alike_quoted (by decide))))

/-- A leaf of a group is read alike. Behind a line feed the character may be the next one. -/
theorem alike_groupLeaf : Alike x.Ahead x.Near groupLeaf.run :=
  alike_stringLiteral.near.orElse (alike_comment.near.orElse (alike_one _))

/-- The character is a leaf of a group. -/
theorem takes_groupLeaf : Takes groupLeaf x.char :=
  takes_char fun c hc s => by
    rcases (by simpa [removables] using hc : c = ' ' ∨ c = '\t' ∨ c = '\r') with
      rfl | rfl | rfl <;> rfl

/-- A group in brackets is read alike; the character may be a leaf of it. -/
theorem alike_bracketGroup : Alike x.Ahead x.Ahead bracketGroup.run :=
  alike_groupLeaf.balanced rfl takes_groupLeaf
    ((by decide : ∀ c ∈ removables, c ∉ brackets) _ x.char_mem)

section Expressions

variable {ends : List Char}

/-- A piece of an expression is read alike. Behind a line feed the character may be the next one. -/
theorem alike_exprPiece : Alike x.Ahead x.Near (exprPiece ends).run :=
  alike_stringLiteral.near.orElse (alike_bracketGroup.near.orElse (alike_one _))

/-- Where an expression ends with its line, the character is still ahead. -/
theorem alike_exprPiece_of (h : '\n' ∈ ends) : Alike x.Ahead x.Ahead (exprPiece ends).run :=
  alike_stringLiteral.orElse (alike_bracketGroup.orElse (alike_one_of (by simp [h])))

/-- The character is a piece of an expression that it does not end. -/
theorem takes_exprPiece {c : Char} (hc : c ∈ removables) (h : c ∉ ends) :
    Takes (exprPiece ends) c := by
  intro s
  have hplain := (by decide : ∀ c ∈ removables, c ∉ openers ∧ c ∉ '#' :: brackets ++ quotes) c hc
  rw [run_exprPiece hplain.1, if_neg]
  rw [notPlain, List.append_assoc, List.mem_append, not_or]
  exact ⟨h, hplain.2⟩

/-- An expression that goes over the ends of lines. -/
theorem alike_expr (h : ∀ c ∈ removables, c ∉ ends) :
    Alike x.Ahead x.Ahead (plus (exprPiece ends)).run :=
  alike_exprPiece.seq (alike_exprPiece.star_near rfl (fun _ _ => id)
    (.star_here (takes_exprPiece x.char_mem (h _ x.char_mem) _)))

/-- An expression that ends with its line. -/
theorem alike_expr_of (h : '\n' ∈ ends) : Alike x.Ahead x.Ahead (plus (exprPiece ends)).run :=
  (alike_exprPiece_of h).seq ((alike_exprPiece_of h).star rfl)

end Expressions

/-- The expression of a decorator ends with its line, but a backslash joins it with the next one. -/
theorem alike_decoratorExpr : Alike x.Held x.Held decoratorExpr.run := by
  have hpiece : Alike x.Ahead x.Near (orElse continuation (exprPiece lineEnds)).run :=
    alike_continuation.orElse alike_exprPiece
  have hrefuses : RefusesEnd (orElse continuation (exprPiece lineEnds)) :=
    refusesEnd_of_peek rfl (by decide)
  have hpieces := hpiece.star_near rfl (fun _ _ => Removal.Ahead.held)
    (.star_here_held (takes_of_isIndent (fun _ => rfl) fun _ => rfl) hrefuses rfl)
  exact ((hpiece.seq hpieces).node (by decide)).of_held (refusesEnd_of_peek rfl (by decide))

/-! ## Parameters -/

/-- A name is the same in both texts. -/
theorem many_one_of_ahead (accepts : Char → Bool) (haccepts : accepts '\n' = false)
    {s t : List Char} (h : x.Ahead s t) : ∃ f r u, many (one accepts : Pattern Rule).run s = (f, r) ∧
      many (one accepts : Pattern Rule).run t = (f, u) ∧ x.Ahead r u := by
  induction s generalizing t with
  | nil =>
    obtain rfl := Removal.eq_nil_of_ahead h
    exact ⟨.nil, [], [], many_of_none rfl, many_of_none rfl, h⟩
  | cons c s ih =>
    -- The run ends here in both texts, for both go on with the same character.
    obtain ⟨u, rfl, -, hahead⟩ := Removal.exists_of_ahead_cons h
    cases hc : accepts c with
    | false =>
      have hnone : ∀ s, (one accepts : Pattern Rule).run (c :: s) = none := fun s => by
        simp [run, hc]
      exact ⟨.nil, c :: s, c :: u, many_of_none (hnone s), many_of_none (hnone u), h⟩
    | true =>
      have hstep : ∀ s, (one accepts : Pattern Rule).run (c :: s) = some (.char c .nil, s) :=
        fun s => by simp [run, hc]
      -- The texts may part behind a line feed only, and this is none.
      have hne : c ≠ '\n' := by
        rintro rfl
        simp [haccepts] at hc
      obtain ⟨f, r, v, hs, ht, hrest⟩ := ih (hahead hne)
      refine ⟨.char c f, r, v, ?_, ?_, hrest⟩
      · rw [many_of_some (hstep s) (by simp), hs]
        rfl
      · rw [many_of_some (hstep u) (by simp), ht]
        rfl

/-- A name is in neither text, or the same name is in both, for it is on one line. -/
theorem identifier_of_ahead {s t : List Char} (h : x.Ahead s t) :
    (identifier.run s = none ∧ identifier.run t = none) ∨
      ∃ f r u, identifier.run s = some (f, r) ∧ identifier.run t = some (f, u) ∧ x.Ahead r u := by
  cases s with
  | nil =>
    obtain rfl := Removal.eq_nil_of_ahead h
    exact .inl ⟨rfl, rfl⟩
  | cons c s =>
    obtain ⟨u, rfl, -, hahead⟩ := Removal.exists_of_ahead_cons h
    cases hc : startsIdentifier c with
    | false => exact .inl ⟨by simp [identifier, run, hc], by simp [identifier, run, hc]⟩
    | true =>
      have hne : c ≠ '\n' := by
        rintro rfl
        exact absurd hc (by decide)
      obtain ⟨f, r, v, hs, ht, hrest⟩ :=
        many_one_of_ahead Text.isXidContinue (by decide) (hahead hne)
      exact .inr ⟨.node .identifier (.char c f) .nil, r, v, by simp [identifier, run, hc, hs],
        by simp [identifier, run, hc, ht], hrest⟩

/-- A name is read alike. -/
theorem alike_identifier : Alike x.Ahead x.Ahead identifier.run := by
  intro s t hst
  rcases identifier_of_ahead hst with ⟨hs, ht⟩ | ⟨f, r, u, hs, ht, hrest⟩
  · exact .refused hs ht
  · exact .matched f r f u hs ht rfl hrest

/-- The name of the function is read alike. -/
theorem alike_functionName : Alike x.Ahead x.Ahead functionName.run := by
  intro s t hst
  rcases identifier_of_ahead hst with ⟨hs, ht⟩ | ⟨f, r, u, hs, ht, hrest⟩
  · exact .refused (by rw [functionName, run, hs]; rfl) (by rw [functionName, run, ht]; rfl)
  · exact .matched (.node .functionName f .nil) r (.node .functionName f .nil) u
      (by rw [functionName, run, hs]; rfl) (by rw [functionName, run, ht]; rfl) rfl hrest

/-- A sign and an expression behind it. -/
theorem alike_marked {c : Char} {rule : Rule} {ends : List Char} (hc : c ≠ '\n')
    (hrule : rule ∉ wordRules) (hends : ∀ c ∈ removables, c ∉ ends) : Alike x.Ahead x.Ahead
      (seq (chr c) (seq (star gap) (node rule (plus (exprPiece ends))))).run :=
  (alike_chr hc).seq (alike_gaps.seq ((alike_expr hends).node hrule))

/-- An annotation is read alike. -/
theorem alike_hint : Alike x.Ahead x.Ahead hint.run :=
  alike_marked (by decide) (by decide) (by decide)

/-- A default value is read alike. -/
theorem alike_defaultValue : Alike x.Ahead x.Ahead defaultValue.run :=
  alike_marked (by decide) (by decide) (by decide)

/-- An annotation is read alike where it may be left out. -/
theorem alike_optionalHint : Alike x.Ahead x.Ahead (optional hint).run :=
  alike_hint.optional fun _ _ => id

/-- A parameter is read alike. -/
theorem alike_parameter : Alike x.Ahead x.Ahead parameter.run :=
  (alike_identifier.seq (alike_gaps.seq (alike_optionalHint.seq
    (alike_gaps.seq (alike_defaultValue.optional fun _ _ => id))))).node (by decide)

/-- A parameter for any number of arguments, behind its stars. -/
theorem alike_variadic {stars : Pattern Rule} {rule : Rule} (hstars : Alike x.Ahead x.Ahead stars.run)
    (hrule : rule ∉ wordRules) : Alike x.Ahead x.Ahead (node rule <| seq stars <|
      seq (star gap) <| seq identifier <| seq (star gap) (optional hint)).run :=
  (hstars.seq (alike_gaps.seq
    (alike_identifier.seq (alike_gaps.seq alike_optionalHint)))).node hrule

/-- A parameter behind a star is read alike. -/
theorem alike_varPositional : Alike x.Ahead x.Ahead varPositional.run :=
  alike_variadic (alike_chr (by decide)) (by decide)

/-- A parameter behind two stars is read alike. -/
theorem alike_varKeyword : Alike x.Ahead x.Ahead varKeyword.run :=
  alike_variadic (alike_word (by decide)) (by decide)

/-- An item of the list is read alike. -/
theorem alike_parameterItem : Alike x.Ahead x.Ahead parameterItem.run :=
  alike_varKeyword.orElse (alike_varPositional.orElse
    (((alike_chr (by decide)).node (by decide)).orElse
      (((alike_chr (by decide)).node (by decide)).orElse alike_parameter)))

/-- The items of the list are read alike, with the blanks and commas between them. -/
theorem alike_parameterList : Alike x.Ahead x.Ahead parameterList.run := by
  have hcomma : Alike x.Ahead x.Ahead (chr ',' : Pattern Rule).run := alike_chr (by decide)
  have hnext := alike_gaps.seq (hcomma.seq (alike_gaps.seq (alike_parameterItem (x := x))))
  exact alike_parameterItem.seq ((hnext.star rfl).seq
    ((alike_gaps.seq hcomma).optional fun _ _ => id))

/-- The list of parameters is read alike. -/
theorem alike_parameters : Alike x.Ahead x.Ahead parameters.run :=
  ((alike_chr (by decide)).seq (alike_gaps.seq
    (((alike_parameterList.seq alike_gaps).optional fun _ _ => id).seq
      (alike_chr (by decide))))).node (by decide)

/-! ## The header -/

/-- The type behind the arrow is read alike. -/
theorem alike_returnHint : Alike x.Ahead x.Ahead returnHint.run := by
  have hexpr : Alike x.Ahead x.Ahead returnExpr.run :=
    (alike_expr_of (by decide)).node (by decide)
  exact ((alike_word (by decide)).seq (alike_inlineSpaces_ahead.seq
    (hexpr.of_held (refusesEnd_of_peek rfl (by decide))))).node (by decide)

/-- What may stand at the end of a line is passed over there. -/
theorem run_optional_of_refusesEnd (h : RefusesEnd p) {s : List Char} (hs : AtEnd s) :
    (optional p).run s = some (.nil, s) := by
  show (orElse p empty).run s = _
  rw [run, h s hs]
  rfl

/-- The type behind the arrow is read alike where it may be left out. Where a text is held up there
is no arrow. -/
theorem alike_optionalReturnHint : Alike x.Held x.Held (optional returnHint).run :=
  ((alike_returnHint.optional fun _ _ => id).rest fun _ _ => Removal.Ahead.held).held fun _ =>
    run_optional_of_refusesEnd (refusesEnd_of_peek rfl (by decide))

/-- The word for a coroutine is read alike. -/
theorem alike_asyncKeyword : Alike x.Ahead x.Ahead asyncKeyword.run := by
  have hword : Alike x.Ahead x.Ahead (word ['a', 's', 'y', 'n', 'c'] : Pattern Rule).run :=
    alike_word (by decide)
  intro s t hst
  cases hword s t hst with
  | refused hs ht =>
    exact .refused (by rw [asyncKeyword, run, hs]; rfl) (by rw [asyncKeyword, run, ht]; rfl)
  | matched f r g u hs ht _ hrest =>
    refine .matched _ r _ u (run_node.mpr ⟨f, hs, rfl⟩) (run_node.mpr ⟨g, ht, rfl⟩) ?_ hrest
    rw [forest_of_word hs, forest_of_word ht]

/-- The word for a coroutine is read alike where it may be left out, with the blanks behind it. -/
theorem alike_optionalAsync :
    Alike x.Held x.Held (optional (seq asyncKeyword (plus inlineSpace))).run :=
  ((alike_asyncKeyword.seq alike_inlineSpaces_plus).optional fun _ _ => Removal.Ahead.held).held
    fun _ => run_optional_of_refusesEnd (refusesEnd_of_peek rfl (by decide))

/-- A header ends on its line, so behind it the character is still ahead. -/
theorem alike_defHeader : Alike x.Near x.Ahead defHeader.run := by
  have hdef : Alike x.Held x.Ahead (word ['d', 'e', 'f'] : Pattern Rule).run :=
    (alike_word (by decide)).of_held (refusesEnd_of_peek rfl (by decide))
  have hname : Alike x.Held x.Ahead functionName.run :=
    alike_functionName.of_held (refusesEnd_of_peek rfl (by decide))
  have hparameters : Alike x.Held x.Ahead parameters.run :=
    alike_parameters.of_held (refusesEnd_of_peek rfl (by decide))
  have hcolon : Alike x.Held x.Ahead (chr ':' : Pattern Rule).run :=
    (alike_chr (by decide)).of_held (refusesEnd_of_peek rfl (by decide))
  have hend := hparameters.seq (alike_inlineSpaces_ahead.seq
    (alike_optionalReturnHint.seq (alike_inlineSpaces_held.seq hcolon)))
  exact (alike_inlineSpaces.seq (alike_optionalAsync.seq (hdef.seq (alike_inlineSpaces_plus.seq
    (hname.seq (alike_inlineSpaces_ahead.seq hend)))))).node (by decide)

end UdfBridge.Source
