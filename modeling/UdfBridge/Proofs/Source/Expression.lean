import UdfBridge.Proofs.Source.LineEnding

/-!
# Written expressions

Annotations and default values are only recognised, not read: a comma, a colon or an equals sign in
a string or in brackets is not taken for structure. `Pieces ends s` says how such a text is written:
with plain characters, of which those of `ends` do not stand outside brackets, with string literals,
and with groups in brackets. What is recognised of it is all of it (`restOf_expr`).

Where a literal ends depends on the character behind it, for a third quote would make it another
literal. So all lemmas ask that what stands behind the text is no literal (`StartsNoLiteral`).
-/

namespace UdfBridge.Source

open Grammar
open Grammar.Pattern

variable {ends : List Char} {q c : Char} {s r u w : List Char} {f : Forest Rule}

/-- The characters that are not plain ones. -/
def signs : List Char :=
  '\\' :: '#' :: lineEnds ++ brackets ++ quotes

/-- The characters that a literal does not hold. -/
def literalEnds : List Char :=
  '\\' :: lineEnds ++ quotes

/-- The text does not go on with a literal. -/
def StartsNoLiteral (s : List Char) : Prop :=
  ∀ c ∈ s.head?, c ∉ quotes

/-- A text of plain characters, literals and groups, with the characters of `ends` in literals and
groups only. -/
inductive Pieces : List Char → List Char → Prop where
  | nil {ends : List Char} : Pieces ends []
  /-- A plain character. -/
  | plain {ends : List Char} {c : Char} {s : List Char} (hend : c ∉ ends) (hsign : c ∉ signs)
      (rest : Pieces ends s) : Pieces ends (c :: s)
  /-- A string between two quotes. -/
  | literal {ends : List Char} {q : Char} {w s : List Char} (hquote : q ∈ quotes)
      (hinner : ∀ c ∈ w, c ∉ literalEnds) (hnext : StartsNoLiteral s) (rest : Pieces ends s) :
      Pieces ends (q :: (w ++ q :: s))
  /-- A group in matching brackets, in which no character ends the text. -/
  | group {ends : List Char} {o k : Char} {w s : List Char} (hclose : closer? o = some k)
      (inner : Pieces [] w) (rest : Pieces ends s) : Pieces ends (o :: (w ++ k :: s))

/-- A text goes on with no literal if its first character is no quote. -/
theorem startsNoLiteral_cons : StartsNoLiteral (c :: s) ↔ c ∉ quotes := by
  simp [StartsNoLiteral]

/-- Two texts that start with no literal make one that starts with none, also where the first is
empty. -/
theorem StartsNoLiteral.append (hs : StartsNoLiteral s) (hr : StartsNoLiteral r) :
    StartsNoLiteral (s ++ r) := by
  cases s with
  | nil => exact hr
  | cons c s => exact startsNoLiteral_cons.mpr (startsNoLiteral_cons.mp hs)

/-- A bracket that closes a group is no quote. -/
theorem startsNoLiteral_closer {k : Char} (hk : k ∈ closers) : StartsNoLiteral (k :: s) :=
  startsNoLiteral_cons.mpr ((by decide : ∀ k ∈ closers, k ∉ quotes) k hk)

/-- What a step leaves does not depend on what is put before its match. -/
theorem restOf_eq_of_map {step step' : Step Rule}
    (h : step s = (step' u).map fun (g, t) => (f ++ g, t)) : restOf step s = restOf step' u := by
  rw [restOf, h, Option.map_map]
  rfl

/-! ## Literals -/

/-- A quote ends the inside of a literal, which has none. -/
theorem many_plainQuoted (hq : q ∈ quotes) (hw : ∀ c ∈ w, c ∉ literalEnds) (r : List Char) :
    (many (piece (plainQuoted q)).run (w ++ q :: r)).2 = q :: r := by
  have hescape : ∀ c s, c ≠ '\\' → ¬ Escapes (c :: s) := by
    rintro c s hc ⟨d, u, heq⟩
    exact hc (List.cons.inj heq).1
  induction w with
  | nil =>
    -- At the quote the literal ends, for it is neither escaped nor plain.
    have hne : q ≠ '\\' := (by decide : ∀ q ∈ quotes, q ≠ '\\') q hq
    rw [List.nil_append, many_of_none]
    rw [run_piece (hescape q r hne), run_plainQuoted List.mem_cons_self]
  | cons c w ih =>
    obtain ⟨hc, hrest⟩ := List.forall_mem_cons.mp hw
    have hne : c ≠ '\\' := fun heq => hc (heq ▸ List.mem_cons_self)
    -- The character neither escapes the next one nor ends the literal.
    have hplain : c ∉ q :: lineEnds := by
      rw [literalEnds, List.cons_append, List.mem_cons, List.mem_append] at hc
      rw [List.mem_cons]
      rintro (rfl | hmem)
      · exact hc (.inr (.inr hq))
      · exact hc (.inr (.inl hmem))
    have hrun : (piece (plainQuoted q)).run (c :: (w ++ q :: r)) =
        some (.char c .nil, w ++ q :: r) := by
      rw [run_piece (hescape c _ hne), plainQuoted, noneOf, run, if_pos (by simpa using hplain)]
    rw [List.cons_append, many_of_some hrun (by simp)]
    exact ih hrest

/-- Two quotes with no third one around them start no literal between three. -/
theorem run_tripleQuoted_of_literal {a : Char} (ha : a ∈ quotes)
    (hw : ∀ c ∈ w, c ∉ literalEnds) (hr : StartsNoLiteral r) :
    (tripleQuoted a).run (q :: (w ++ q :: r)) = none := by
  by_contra hne
  obtain ⟨⟨f, t⟩, hrun⟩ := Option.ne_none_iff_exists'.mp hne
  have hprefix : [a, a, a] <+: q :: (w ++ q :: r) := by
    rw [lossless_run _ _ _ _ hrun]
    exact (quotes_prefix_of_tripleQuoted hrun).trans (List.prefix_append _ _)
  rw [List.cons_prefix_cons] at hprefix
  cases w with
  | nil =>
    -- The third quote would stand behind the literal.
    rw [List.nil_append, List.cons_prefix_cons] at hprefix
    obtain ⟨t, ht⟩ := hprefix.2.2
    rw [← ht] at hr
    exact startsNoLiteral_cons.mp hr ha
  | cons c w =>
    -- The second quote would stand in the literal.
    rw [List.cons_append, List.cons_prefix_cons] at hprefix
    obtain rfl := hprefix.2.1
    exact hw a List.mem_cons_self (List.mem_append_right _ ha)

/-- A literal is read to its second quote. -/
theorem restOf_stringLiteral (hq : q ∈ quotes) (hw : ∀ c ∈ w, c ∉ literalEnds)
    (hr : StartsNoLiteral r) : restOf stringLiteral.run (q :: (w ++ q :: r)) = some r := by
  have hquoted : restOf (quoted q).run (q :: (w ++ q :: r)) = some r := by
    have hmany : many (piece (plainQuoted q)).run (w ++ q :: r) =
        ((many (piece (plainQuoted q)).run (w ++ q :: r)).1, q :: r) :=
      Prod.ext rfl (many_plainQuoted hq hw r)
    rw [restOf, run_quoted.mpr ⟨_, _, rfl, hmany, rfl⟩]
    rfl
  -- Of the four kinds of literals, those between three quotes come first.
  have htriple : ∀ a ∈ quotes, restOf (tripleQuoted a).run (q :: (w ++ q :: r)) = none := by
    intro a ha
    rw [restOf, run_tripleQuoted_of_literal ha hw hr]
    rfl
  rw [stringLiteral, restOf_orElse, htriple _ (by decide), restOf_orElse, htriple _ (by decide),
    restOf_orElse]
  -- The quote is one of two, and the other kind of literal does not start with it.
  by_cases hdouble : q = '"'
  · subst hdouble
    rw [hquoted]
    rfl
  · obtain rfl : q = '\'' := by simpa [quotes, hdouble] using hq
    have hother : (quoted '"').run ('\'' :: (w ++ '\'' :: r)) = none :=
      run_of_peek_false (by decide) _
    rw [hquoted, restOf, hother]
    rfl

/-! ## Groups -/

/-- A plain character between brackets is a piece. -/
theorem run_groupLeaf (hc : c ∉ signs) (s : List Char) :
    groupLeaf.run (c :: s) = some (.char c .nil, s) := by
  have hquote : c ∉ quotes := fun h => hc (List.mem_append_right _ h)
  have hcomment : comment.peek c = some false := by
    have hne : c ≠ '#' := fun heq => hc (by simp [heq, signs])
    simp [comment, peek, chr, hne]
  have hplain : c ∉ '#' :: brackets ++ quotes := fun h =>
    hc ((by decide : '#' :: brackets ++ quotes ⊆ signs) h)
  rw [groupLeaf, run, run_of_peek_false (peek_stringLiteral hquote)]
  simp only [run, run_of_peek_false hcomment, noneOf]
  rw [if_pos (by simpa using hplain)]

/-- Between brackets, a text in pieces is read up to where it ends. The induction is on the pieces,
for any brackets that are awaited. -/
theorem Pieces.restOf_closeGroups (h : Pieces ends s) {k : Char} (hk : k ∈ closers)
    (ks : List Char) (hr : StartsNoLiteral r) :
    restOf (closeGroups groupLeaf.run (k :: ks)) (s ++ r) =
      restOf (closeGroups groupLeaf.run (k :: ks)) r := by
  have hbracket : ∀ k ∈ closers, k ∈ signs := by decide
  -- A plain character opens no group.
  have hopen : ∀ c ∉ signs, closer? c = none := by
    intro c hc
    by_contra hne
    obtain ⟨v, hv⟩ := Option.ne_none_iff_exists'.mp hne
    exact hc ((by decide : ['(', '[', '\x7b'] ⊆ signs) (closer?_eq_some hv).1)
  induction h generalizing k ks r with
  | nil => rfl
  | @plain _ c s _ hsign _ ih =>
    have hne : c ≠ k := fun heq => hsign (heq ▸ hbracket k hk)
    rw [List.cons_append, ← ih hk ks hr]
    exact restOf_eq_of_map
      (closeGroups_leaf ks hne (hopen _ hsign) (run_groupLeaf hsign _) (by simp))
  | @literal _ q w s hq hw hnext _ ih =>
    have hne : q ≠ k := by
      -- A quote closes no group.
      rintro rfl
      exact (by decide : ∀ k ∈ closers, k ∉ quotes) q hk hq
    have hnone : closer? q = none := (by decide : ∀ q ∈ quotes, closer? q = none) q hq
    rw [List.cons_append, List.append_assoc, List.cons_append, ← ih hk ks hr]
    have hrest := restOf_stringLiteral hq hw (hnext.append hr)
    obtain ⟨⟨g, t⟩, hrun, rfl⟩ := Option.map_eq_some_iff.mp hrest
    have hleaf : groupLeaf.run (q :: (w ++ q :: (s ++ r))) = some (g, _) :=
      run_orElse.mpr (.inl hrun)
    exact restOf_eq_of_map (closeGroups_leaf ks hne hnone hleaf (by simp; omega))
  | @group _ o v w s hclose _ _ ihinner ih =>
    have hv : v ∈ closers := (closer?_eq_some hclose).2
    have hne : o ≠ k := by
      -- The bracket opens a group, so it does not close the one that is open.
      rintro rfl
      exact absurd (closer?_eq_some hclose).1
        ((by decide : ∀ k ∈ closers, k ∉ ['(', '[', '\x7b']) o hk)
    rw [List.cons_append, List.append_assoc, List.cons_append]
    -- The group inside is read first, then its bracket closes it, and the rest follows.
    calc restOf (closeGroups groupLeaf.run (k :: ks)) (o :: (w ++ v :: (s ++ r)))
        = restOf (closeGroups groupLeaf.run (v :: k :: ks)) (w ++ v :: (s ++ r)) :=
          restOf_eq_of_map (f := .char o .nil) (closeGroups_open hne hclose _)
      _ = restOf (closeGroups groupLeaf.run (v :: k :: ks)) (v :: (s ++ r)) :=
          ihinner hv (k :: ks) (startsNoLiteral_closer hv)
      _ = restOf (closeGroups groupLeaf.run (k :: ks)) (s ++ r) :=
          restOf_eq_of_map (f := .char v .nil) (closeGroups_close _ _ _ _)
      _ = restOf (closeGroups groupLeaf.run (k :: ks)) r := ih hk ks hr

/-- A group is read to the bracket that closes it. -/
theorem restOf_bracketGroup {o k : Char} (hclose : closer? o = some k) (hw : Pieces [] w)
    (r : List Char) : restOf bracketGroup.run (o :: (w ++ k :: r)) = some r := by
  have hk : k ∈ closers := (closer?_eq_some hclose).2
  have hrun : bracketGroup.run (o :: (w ++ k :: r)) =
      (closeGroups groupLeaf.run [k] (w ++ k :: r)).map fun (f, t) => (.char o f, t) := by
    rw [bracketGroup, run, group, hclose]
  have hend : closeGroups groupLeaf.run [k] (k :: r) = some (.char k .nil, r) := by
    rw [closeGroups_close, closeGroups]
    rfl
  rw [restOf_eq_of_map (f := .char o .nil) hrun,
    hw.restOf_closeGroups hk [] (startsNoLiteral_closer hk), restOf, hend]
  rfl

/-! ## Expressions -/

/-- What a repetition leaves is what it leaves behind a match. -/
theorem many_rest_of_restOf {p : Pattern Rule} (hconsumes : p.consumes = true)
    (h : restOf p.run s = some r) : (many p.run s).2 = (many p.run r).2 := by
  obtain ⟨⟨g, t⟩, hrun, rfl⟩ := Option.map_eq_some_iff.mp h
  rw [many_of_some hrun (length_lt_of_consumes hconsumes hrun)]

/-- A text in pieces is taken piece by piece. -/
theorem Pieces.many_exprPiece (h : Pieces ends s) (hr : StartsNoLiteral r) :
    (many (exprPiece ends).run (s ++ r)).2 = (many (exprPiece ends).run r).2 := by
  induction h with
  | nil => rfl
  | @plain ends c s hend hsign _ ih =>
    -- A plain character is a piece by itself.
    have hopen : c ∉ openers := fun h => hsign ((by decide : openers ⊆ signs) h)
    have hplain : c ∉ notPlain ends := by
      rw [notPlain, List.append_assoc, List.mem_append, not_or]
      exact ⟨hend, fun h => hsign ((by decide : '#' :: brackets ++ quotes ⊆ signs) h)⟩
    have hpiece : (exprPiece ends).run (c :: (s ++ r)) = some (.char c .nil, s ++ r) := by
      rw [run_exprPiece hopen, if_neg hplain]
    rw [List.cons_append, many_of_some hpiece (by simp)]
    exact ih
  | @literal ends q w s hq hw hnext _ ih =>
    rw [List.cons_append, List.append_assoc, List.cons_append, ← ih]
    refine many_rest_of_restOf rfl ?_
    rw [exprPiece, restOf_orElse, restOf_stringLiteral hq hw (hnext.append hr)]
    rfl
  | @group ends o k w s hclose hinner _ _ ih =>
    rw [List.cons_append, List.append_assoc, List.cons_append, ← ih]
    -- A bracket that opens a group starts no literal, so the group is what is read.
    have hquote : o ∉ quotes := fun h => (not_mem_of_closer? hclose).2 (List.mem_cons_of_mem _ h)
    refine many_rest_of_restOf rfl ?_
    rw [exprPiece, restOf_orElse, restOf, run_of_peek_false (peek_stringLiteral hquote),
      restOf_orElse, restOf_bracketGroup hclose hinner]
    rfl

/-- A repetition that takes something does so with its first match. -/
theorem run_plus_of_ne {p : Pattern Rule} (h : (many p.run s).2 ≠ s) :
    (plus p).run s = some (many p.run s) := by
  cases hfirst : p.run s with
  | none => exact absurd (by rw [many_of_none hfirst]) h
  | some m =>
    obtain ⟨g, t⟩ := m
    by_cases hlt : t.length < s.length
    · rw [many_of_some hfirst hlt, plus, run_seq_of_some hfirst, run_star]
      rfl
    · exact absurd (by rw [many_of_not_lt hfirst hlt]) h

/-- An expression is recognised up to a character that is no piece of one. -/
theorem restOf_expr (h : Pieces ends s) (hne : s ≠ []) (hc : c ∈ notPlain ends)
    (hopen : c ∉ openers) (r : List Char) :
    restOf (plus (exprPiece ends)).run (s ++ c :: r) = some (c :: r) := by
  have hstop : many (exprPiece ends).run (c :: r) = (.nil, c :: r) := by
    refine many_of_none ?_
    rw [run_exprPiece hopen, if_pos hc]
  have hmany : (many (exprPiece ends).run (s ++ c :: r)).2 = c :: r := by
    have hquote : c ∉ quotes := fun h => hopen (List.mem_append_left _ h)
    rw [h.many_exprPiece (startsNoLiteral_cons.mpr hquote), hstop]
  rw [restOf, run_plus_of_ne, Option.map_some, hmany]
  rw [hmany]
  intro heq
  exact hne (List.append_left_eq_self.mp heq.symm)

/-- Pieces behind pieces, if no two literals meet. -/
theorem Pieces.append {t : List Char} (hs : Pieces ends s) (ht : Pieces ends t)
    (hnext : StartsNoLiteral t) : Pieces ends (s ++ t) := by
  induction hs with
  | nil => exact ht
  | plain hend hsign _ ih => exact .plain hend hsign (ih ht)
  | literal hq hw hs _ ih =>
    rw [List.cons_append, List.append_assoc, List.cons_append]
    exact .literal hq hw (hs.append hnext) (ih ht)
  | group hclose hinner _ _ ih =>
    rw [List.cons_append, List.append_assoc, List.cons_append]
    exact .group hclose hinner (ih ht)

/-- Plain characters before pieces. -/
theorem Pieces.plain_append {t : List Char} (ht : ∀ c ∈ t, c ∉ ends ∧ c ∉ signs)
    (hs : Pieces ends s) : Pieces ends (t ++ s) := by
  induction t with
  | nil => exact hs
  | cons c t ih =>
    obtain ⟨⟨hend, hsign⟩, ht⟩ := List.forall_mem_cons.mp ht
    exact .plain hend hsign (ih ht)

/-- Plain characters are pieces. -/
theorem Pieces.of_plain (hs : ∀ c ∈ s, c ∉ ends ∧ c ∉ signs) : Pieces ends s := by
  rw [← List.append_nil s]
  exact .plain_append hs .nil

/-- A text in pieces stands on one line. -/
theorem Pieces.not_mem_feed (h : Pieces ends s) : '\n' ∉ s := by
  induction h with
  | nil => exact List.not_mem_nil
  | plain _ hsign _ ih =>
    refine List.not_mem_cons_of_ne_of_not_mem (fun heq => hsign ?_) ih
    rw [← heq]
    decide
  | literal hq hw _ _ ih =>
    have hquote := (by decide : ∀ q ∈ quotes, '\n' ≠ q) _ hq
    have hinner : '\n' ∉ _ := fun hmem => hw _ hmem (by decide)
    simp [hquote, hinner, ih]
  | group hclose _ _ ihinner ih =>
    have hopen := (not_mem_of_closer? hclose).1
    have hend := (by decide : ∀ k ∈ closers, '\n' ≠ k) _ (closer?_eq_some hclose).2
    simp [hopen.symm, hend, ihinner, ih]

/-- A text in pieces starts with no backslash, comment or line end. -/
theorem Pieces.head_not_mem (h : Pieces ends (c :: s)) : c ∉ '\\' :: '#' :: lineEnds := by
  cases h with
  | plain _ hsign _ => exact fun hc => hsign ((by decide : '\\' :: '#' :: lineEnds ⊆ signs) hc)
  | literal hq _ _ _ => exact (by decide : ∀ q ∈ quotes, q ∉ '\\' :: '#' :: lineEnds) _ hq
  | group hclose _ _ =>
    exact (by decide : ∀ o ∈ ['(', '[', '\x7b'], o ∉ '\\' :: '#' :: lineEnds) _
      (closer?_eq_some hclose).1

/-- A text in pieces that neither starts nor ends with white space. -/
structure IsExpression (ends : List Char) (e : String) : Prop where
  pieces : Pieces ends e.toList
  ne_nil : e.toList ≠ []
  head : ∀ c ∈ e.toList.head?, Text.isBlank c = false
  last : ∀ c ∈ e.toList.getLast?, Text.isBlank c = false

/-- The first and the last character of a text are looked at for white space. -/
theorem Pieces.isExpression {ends : List Char} {e : String} (h : Pieces ends e.toList)
    (hne : e.toList ≠ []) (hhead : (e.toList.head?.all fun c => !Text.isBlank c) = true)
    (hlast : (e.toList.getLast?.all fun c => !Text.isBlank c) = true) : IsExpression ends e := by
  simp only [Option.all_eq_true, Bool.not_eq_true'] at hhead hlast
  exact ⟨h, hne, hhead, hlast⟩

/-- White space behind an expression is taken away again. -/
theorem IsExpression.trim_append {e : String} (h : IsExpression ends e) {b : List Char}
    (hb : ∀ c ∈ b, Text.isBlank c = true) : Text.trim (.ofList (e.toList ++ b)) = e := by
  obtain ⟨c, s, hstart⟩ := List.exists_cons_of_ne_nil h.ne_nil
  obtain ⟨t, d, hlast⟩ := (List.eq_nil_or_concat e.toList).resolve_left h.ne_nil
  have hc : Text.isBlank c = false := h.head c (by rw [hstart]; rfl)
  have hd : Text.isBlank d = false := h.last d (by simp [hlast])
  -- The first character stays, and so does the last one, behind which the white space stands.
  have hfront : (e.toList ++ b).dropWhile Text.isBlank = e.toList ++ b := by
    rw [hstart, List.cons_append, List.dropWhile_cons_of_neg (by simp [hc])]
  have hback : Text.trimEndChars (e.toList ++ b) = e.toList := by
    have hblanks : ∀ c ∈ b.reverse, Text.isBlank c = true := fun c hmem =>
      hb c (List.mem_reverse.mp hmem)
    rw [Text.trimEndChars, List.reverse_append, List.dropWhile_append_of_pos hblanks, hlast,
      List.concat_eq_append, List.reverse_append, List.reverse_singleton, List.singleton_append,
      List.dropWhile_cons_of_neg (by simp [hd])]
    simp
  rw [Text.trim, Text.trimChars, String.toList_ofList, hfront, hback, String.ofList_toList]

end UdfBridge.Source
