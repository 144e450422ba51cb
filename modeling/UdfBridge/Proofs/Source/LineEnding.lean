import UdfBridge.Proofs.Source.Division
import UdfBridge.Proofs.Source.Literal

/-!
# Definitions with other line endings

The rules up to the body, from the blanks to the header, each with what it does to a text in which a
carriage return stands before every line feed. Together they divide such a text where they divide
the other one, unless a string literal before the body goes over the end of a line in one pair of
quotes; then the text is no definition (`division_crlf`).
-/

namespace UdfBridge.Grammar

variable {ρ : Type} {leaf : Step ρ} {w c v : Char} {ws s r : List Char} {f : Forest ρ}

/-- The awaited bracket closes the innermost group. -/
theorem closeGroups_close (leaf : Step ρ) (w : Char) (ws s : List Char) :
    closeGroups leaf (w :: ws) (w :: s) =
      (closeGroups leaf ws s).map fun (f, r) => (.char w f, r) := by
  rw [closeGroups, if_pos rfl]

/-- A bracket opens a group in the innermost one. -/
theorem closeGroups_open (hw : c ≠ w) (hc : closer? c = some v) (s : List Char) :
    closeGroups leaf (w :: ws) (c :: s) =
      (closeGroups leaf (v :: w :: ws) s).map fun (f, r) => (.char c f, r) := by
  rw [closeGroups, if_neg hw]
  simp only [hc]

/-- A piece is read in the innermost group. -/
theorem closeGroups_leaf (ws : List Char) (hw : c ≠ w) (hc : closer? c = none)
    (hleaf : leaf (c :: s) = some (f, r)) (hlt : r.length < (c :: s).length) :
    closeGroups leaf (w :: ws) (c :: s) =
      (closeGroups leaf (w :: ws) r).map fun (g, t) => (f ++ g, t) := by
  rw [closeGroups, if_neg hw]
  simp only [hc, hleaf, hlt, dite_true]

/-- Where there is no piece, no group is closed. -/
theorem closeGroups_of_none (hw : c ≠ w) (hc : closer? c = none) (hleaf : leaf (c :: s) = none) :
    closeGroups leaf (w :: ws) (c :: s) = none := by
  rw [closeGroups, if_neg hw]
  simp only [hc, hleaf]

end UdfBridge.Grammar

namespace UdfBridge.Source

open Grammar
open Grammar.Pattern
open Text (crlf)

variable {p : Pattern Rule} {s r : List Char} {f : Forest Rule}

/-! ## Groups in brackets -/

/-- The characters that close groups. -/
def closers : List Char := [')', ']', '\x7d']

/-- Only brackets that open a group have others that close it. -/
theorem closer?_eq_some {c v : Char} (h : closer? c = some v) :
    c ∈ ['(', '[', '\x7b'] ∧ v ∈ closers := by
  unfold closer? at h
  split at h
  · exact ⟨by simp [*], by simp [← Option.some.inj h, closers]⟩
  · split at h
    · exact ⟨by simp [*], by simp [← Option.some.inj h, closers]⟩
    · split at h
      · exact ⟨by simp [*], by simp [← Option.some.inj h, closers]⟩
      · simp at h

/-- A bracket that opens a group neither ends a line nor starts another token. -/
theorem not_mem_of_closer? {c v : Char} (h : closer? c = some v) :
    c ≠ '\n' ∧ c ∉ '#' :: quotes :=
  (by decide : ∀ c ∈ ['(', '[', '\x7b'], c ≠ '\n' ∧ c ∉ '#' :: quotes) c (closer?_eq_some h).1

/-- The groups that pieces make up. The induction is on the text; a line ending of two characters is
two pieces. -/
theorem followsAt_closeGroups {leaf : Pattern Rule} (hends : TakesEnds leaf)
    (hconsumes : leaf.consumes = true)
    (hleaf : ∀ s, '\r' ∉ s → s.head? ≠ some '\n' → FollowsAt leaf.run Fails s) {ws : List Char}
    (hws : ∀ w ∈ ws, w ∈ closers) (hs : '\r' ∉ s) :
    FollowsAt (closeGroups leaf.run ws) Fails s := by
  have hcloser : ∀ w ∈ closers, '\n' ≠ w ∧ '\r' ≠ w ∧ w ∉ '#' :: quotes := by decide
  fun_induction closeGroups leaf.run ws s with
  | case1 s =>
    -- Without an open group nothing is read, in either text.
    have hclosed : ∀ t, closeGroups leaf.run [] t = some (.nil, t) := fun t => by rw [closeGroups]
    exact .of_some (hclosed s) (hclosed (crlf s)) (.nil s) not_hasContinued_nil
  | case2 w ws => exact .of_none (by rw [closeGroups]) (by rw [Text.crlf_nil, closeGroups])
  | case3 ws w s ih =>
    -- The group closes at a bracket, which is no line ending.
    obtain ⟨hfeed, -, htoken⟩ := hcloser w (hws w List.mem_cons_self)
    have hinner := ih (fun w hw => hws w (List.mem_cons_of_mem _ hw))
      fun h => hs (List.mem_cons_of_mem _ h)
    exact hinner.char hfeed.symm htoken (closeGroups_close leaf.run w ws)
  | case4 w ws c s hne v hopen ih =>
    obtain ⟨hfeed, htoken⟩ := not_mem_of_closer? hopen
    have hinner := ih (List.forall_mem_cons.mpr ⟨(closer?_eq_some hopen).2, hws⟩)
      fun h => hs (List.mem_cons_of_mem _ h)
    exact hinner.char hfeed htoken (closeGroups_open hne hopen)
  | case5 w ws c s hne hopen hnone =>
    -- A line feed is a leaf, so what the leaf refuses is another character.
    have hfeed : c ≠ '\n' := by
      rintro rfl
      simp [hends.feed] at hnone
    have hcrlf := (hleaf (c :: s) hs (by simpa using hfeed)).1 hnone
    rw [Text.crlf_cons hfeed] at hcrlf
    refine .of_none (closeGroups_of_none hne hopen hnone) ?_
    rw [Text.crlf_cons hfeed, closeGroups_of_none hne hopen hcrlf]
  | case6 w ws c s hne hopen f r hpiece hlt ih =>
    obtain ⟨hfeed, hreturn, -⟩ := hcloser w (hws w List.mem_cons_self)
    have hinner := ih hws (not_mem_rest hs hpiece)
    have hgroup := closeGroups_leaf ws hne hopen hpiece hlt
    by_cases hc : c = '\n'
    · subst hc
      obtain ⟨rfl, rfl⟩ := Prod.mk.inj (Option.some.inj ((hends.feed s).symm.trans hpiece))
      -- The other text has the carriage return as one more piece in front of this one.
      refine hinner.read (.char (by decide) (.nil s)) not_hasContinued_nil hgroup ?_
      rw [Text.crlf_feed, closeGroups_leaf _ hreturn (by decide) (hends.ret _) (by simp),
        closeGroups_leaf _ hfeed (by decide) (hends.feed _) (by simp), Option.map_map]
      rfl
    · obtain ⟨ls, hscan, hcases⟩ := (hleaf (c :: s) hs (by simpa using hc)).2 f r hpiece
      have hshorter := length_crlf_lt hconsumes hpiece
      rw [Text.crlf_cons hc] at hcases hshorter
      rcases hcases with ⟨hnot, hcrlf⟩ | ⟨hcontinued, hfails⟩
      · refine hinner.read hscan hnot hgroup ?_
        rw [Text.crlf_cons hc, closeGroups_leaf _ hne hopen hcrlf hshorter]
      · -- The literal is in this piece, which the other text does not have.
        have hnone : leaf.run (c :: crlf s) = none := by simpa [Fails, restOf] using hfails
        have hcrlf : closeGroups leaf.run (w :: ws) (crlf (c :: s)) = none := by
          rw [Text.crlf_cons hc, closeGroups_of_none hne hopen hnone]
        refine hinner.of_hasContinued hscan hcontinued hgroup (fun _ => hcrlf) ?_
        rw [Fails, restOf, hcrlf]
        rfl
  | case7 w ws c s hne hopen f r hpiece hlt =>
    exact absurd (length_lt_of_consumes hconsumes hpiece) hlt

/-- Groups follow if their leaves do and line ends are leaves, and with a continued literal inside
they are refused. -/
theorem follows_balanced {leaf : Pattern Rule} (hends : TakesEnds leaf)
    (hconsumes : leaf.consumes = true)
    (hleaf : ∀ s, '\r' ∉ s → s.head? ≠ some '\n' → FollowsAt leaf.run Fails s) :
    Follows (balanced leaf) Fails := by
  intro s hs
  cases s with
  | nil => exact .of_none rfl rfl
  | cons c s =>
    cases hopen : closer? c with
    | none =>
      have hnone : ∀ t, (balanced leaf).run (c :: t) = none := by
        intro t
        rw [run, group, hopen]
      refine .of_none (hnone s) ?_
      by_cases hc : c = '\n'
      · subst hc
        rfl
      · rw [Text.crlf_cons hc, hnone]
    | some w =>
      obtain ⟨hfeed, htoken⟩ := not_mem_of_closer? hopen
      have hinner := followsAt_closeGroups hends hconsumes hleaf
        (List.forall_mem_singleton.mpr (closer?_eq_some hopen).2)
        fun h => hs (List.mem_cons_of_mem _ h)
      refine hinner.char hfeed htoken fun t => ?_
      rw [run, group, hopen]

/-! ## Pieces of expressions -/

/-- The characters that start literals and groups. -/
def openers : List Char := quotes ++ ['(', '[', '\x7b']

/-- The characters that stand for themselves follow a text, line ends apart. -/
theorem followsAt_noneOf {cs : List Char} (htoken : '#' :: quotes ⊆ cs)
    (h : s.head? ≠ some '\n' ∨ lineEnds ⊆ cs) : FollowsAt (noneOf cs).run Fails s := by
  have hrefused : ∀ c ∈ cs, (!cs.contains c) = false := fun c hc => by simpa using hc
  refine (FollowsAt.one (fun c hc => hrefused c (htoken hc)) ?_).mono fun _ h => h.elim
  exact h.imp_right fun h c hc => hrefused c (h hc)

/-- Behind a quote or a bracket that opens a group stands no character by itself. -/
theorem noneOf_of_startsIn {cs : List Char} (hcs : openers ⊆ cs) (h : StartsIn openers s) :
    (noneOf cs : Pattern Rule).run s = none := by
  obtain ⟨c, hc, t, rfl⟩ := h
  have hmem : cs.contains c = true := List.contains_iff_mem.mpr (hcs hc)
  rw [noneOf, run, hmem]
  rfl

/-- A string literal starts with a quote. -/
theorem startsIn_of_stringLiteral (h : stringLiteral.run s = some (f, r)) : StartsIn quotes s :=
  exists_quote_of_stringLiteral h

/-- A group starts with a bracket that opens it. -/
theorem startsIn_of_balanced {leaf : Pattern Rule} (h : (balanced leaf).run s = some (f, r)) :
    StartsIn ['(', '[', '\x7b'] s := by
  cases s with
  | nil => simp [run, group] at h
  | cons c s =>
    cases hopen : closer? c with
    | none => simp [run, group, hopen] at h
    | some w => exact ⟨c, (closer?_eq_some hopen).1, s, rfl⟩

/-- Line ends in a group are read one by one. -/
theorem takesEnds_groupLeaf : TakesEnds groupLeaf :=
  ⟨fun _ => rfl, fun _ => rfl⟩

/-- A leaf of a group follows where it does not start with a line feed. -/
theorem followsAt_groupLeaf (hs : '\r' ∉ s) (hhead : s.head? ≠ some '\n') :
    FollowsAt groupLeaf.run Fails s := by
  have hcomment :
      FollowsAt (Pattern.orElse comment (noneOf ('#' :: brackets ++ quotes))).run Fails s := by
    refine (follows_comment.of_never s hs).orElse_fails
      (followsAt_noneOf (by decide) (.inl hhead)) fun f r hrun => ?_
    obtain ⟨t, rfl⟩ := exists_sign_of_comment hrun
    rfl
  refine (follows_stringLiteral s hs).orElse_fails hcomment fun f r hrun => ?_
  exact ((startsIn_of_stringLiteral hrun).crlf (by decide)).refused (by decide)

/-- A group in brackets follows, and with a continued literal inside it is refused. -/
theorem follows_bracketGroup : Follows bracketGroup Fails :=
  follows_balanced takesEnds_groupLeaf rfl fun _ => followsAt_groupLeaf

variable {ends : List Char}

/-- The characters that are no piece of an expression by themselves: those that end it, and those
that start a token. -/
def notPlain (ends : List Char) : List Char :=
  ends ++ '#' :: brackets ++ quotes

/-- The signs of tokens are no pieces of an expression by themselves. -/
theorem subset_notPlain {cs : List Char} (h : cs ⊆ '#' :: brackets ++ quotes) :
    cs ⊆ notPlain ends := by
  rw [notPlain, List.append_assoc]
  exact List.subset_append_of_subset_right _ h

/-- A piece of an expression follows, unless it is a line feed by itself. -/
theorem followsAt_exprPiece (hs : '\r' ∉ s) (h : s.head? ≠ some '\n' ∨ lineEnds ⊆ ends) :
    FollowsAt (exprPiece ends).run Fails s := by
  have hopeners : openers ⊆ notPlain ends := subset_notPlain (by decide)
  have hplain : FollowsAt (noneOf (notPlain ends)).run Fails s := by
    refine followsAt_noneOf (subset_notPlain (by decide)) (h.imp_right fun h => ?_)
    rw [notPlain, List.append_assoc]
    exact List.subset_append_of_subset_left _ h
  have hgroup := (follows_bracketGroup s hs).orElse_fails hplain fun f r hrun =>
    noneOf_of_startsIn hopeners (((startsIn_of_balanced hrun).crlf (by decide)).mono (by decide))
  refine (follows_stringLiteral s hs).orElse_fails hgroup fun f r hrun => ?_
  have hquote := (startsIn_of_stringLiteral hrun).crlf (by decide)
  exact run_orElse_eq_none.mpr ⟨hquote.refused (by decide),
    noneOf_of_startsIn hopeners (hquote.mono (by decide))⟩

/-- What neither starts a literal nor a group is a piece if it is a plain character. -/
theorem run_exprPiece {c : Char} (hc : c ∉ openers) (t : List Char) :
    (exprPiece ends).run (c :: t) =
      if c ∈ notPlain ends then none else some (.char c .nil, t) := by
  rw [openers, List.mem_append, not_or] at hc
  have hgroup : bracketGroup.peek c = some false := by
    have hne : c ≠ '(' ∧ c ≠ '[' ∧ c ≠ '\x7b' := by simpa using hc.2
    simp [bracketGroup, peek, closer?, hne]
  rw [exprPiece, run, run_of_peek_false (peek_stringLiteral hc.1)]
  simp only [run, run_of_peek_false hgroup]
  show (if (!(notPlain ends).contains c) = true then some (Forest.char c .nil, t) else none) = _
  by_cases hmem : c ∈ notPlain ends
  · rw [if_pos hmem, List.contains_iff_mem.mpr hmem]
    rfl
  · rw [if_neg hmem, if_pos]
    simpa using hmem

/-- Line ends are read one by one in an expression that they do not end. -/
theorem takesEnds_exprPiece (h : ∀ c ∈ lineEnds, c ∉ ends) : TakesEnds (exprPiece ends) := by
  have hend : ∀ c ∈ lineEnds, ∀ t, (exprPiece ends).run (c :: t) = some (.char c .nil, t) := by
    intro c hc t
    have hnot : c ∉ '#' :: brackets ++ quotes :=
      (by decide : ∀ c ∈ lineEnds, c ∉ '#' :: brackets ++ quotes) c hc
    have hopen : c ∉ openers := (by decide : ∀ c ∈ lineEnds, c ∉ openers) c hc
    rw [run_exprPiece hopen, if_neg]
    rw [notPlain, List.append_assoc, List.mem_append, not_or]
    exact ⟨h c hc, hnot⟩
  exact ⟨hend '\n' (by decide), hend '\r' (by decide)⟩

/-- A piece that only one of the texts has starts with a literal or a group. -/
theorem startsIn_of_exprPiece (hends : lineEnds ⊆ ends ∨ ∀ c ∈ lineEnds, c ∉ ends)
    (h : (exprPiece ends).run s = some (f, r)) (hnone : (exprPiece ends).run (crlf s) = none) :
    StartsIn openers (crlf s) := by
  cases s with
  | nil => simp [h] at hnone
  | cons c t =>
    by_cases hc : c ∈ openers
    · exact StartsIn.crlf (by decide) ⟨c, hc, t, rfl⟩
    rw [run_exprPiece hc] at h
    by_cases hfeed : c = '\n'
    · subst hfeed
      rcases hends with hends | hends
      · have hmem : '\n' ∈ notPlain ends := by
          rw [notPlain, List.append_assoc]
          exact List.mem_append_left _ (hends (by decide))
        rw [if_pos hmem] at h
        simp at h
      · rw [Text.crlf_feed, (takesEnds_exprPiece hends).ret] at hnone
        simp at hnone
    · rw [Text.crlf_cons hfeed, run_exprPiece hc] at hnone
      split at h
      · simp at h
      · rw [if_neg ‹_›] at hnone
        simp at hnone

/-- The pieces of an expression follow one after another, if line ends either all end it or are all
pieces of it. -/
theorem piecewise_exprPiece (hends : lineEnds ⊆ ends ∨ ∀ c ∈ lineEnds, c ∉ ends) :
    FollowsPiecewise (exprPiece ends) Fails := by
  have hconsumes : (exprPiece ends).consumes = true := rfl
  rcases hends with hends | hends
  · exact Follows.piecewise (fun s hs => followsAt_exprPiece hs (.inr hends)) hconsumes
  · exact (takesEnds_exprPiece hends).piecewise hconsumes fun s hs hhead =>
      followsAt_exprPiece hs (.inl hhead)

/-- An expression does not match if its first piece does not, and ends before another one that does
not. -/
theorem follows_expr (hends : lineEnds ⊆ ends ∨ ∀ c ∈ lineEnds, c ∉ ends) :
    Follows (plus (exprPiece ends)) (Blocks (StartsIn openers)) :=
  (piecewise_exprPiece hends).plus rfl fun _ _ _ _ hrun hnone =>
    startsIn_of_exprPiece hends hrun hnone

/-! ## Blanks -/

/-- A continuation follows: with other line endings it has a carriage return behind the backslash.
-/
theorem follows_continuation : Follows continuation Never :=
  (follows_chr (by decide)).seq_never follows_lineBreak

/-- A blank within a line follows. -/
theorem follows_inlineSpace : Follows inlineSpace Never :=
  (follows_one (by decide)).orElse_never follows_continuation

/-- Blanks within a line follow. -/
theorem follows_inlineSpaces : Follows (star inlineSpace) Never :=
  follows_inlineSpace.star_never rfl

/-- Blanks between items follow. -/
theorem follows_gaps : Follows (star gap) Never :=
  (follows_inlineSpace.orElse_never (follows_lineBreak.orElse_never follows_comment)).star_never rfl

/-- Blank lines follow. -/
theorem follows_blankLines : Follows (star blankLine) Never := by
  have hcomment : Follows (optional comment) Never := follows_comment.orElse_never follows_empty
  have hline : Follows blankLine Never :=
    follows_inlineSpaces.seq_never (hcomment.seq_never follows_lineBreak)
  exact hline.star_never rfl

/-- A name follows, for it has neither line ends nor literals. -/
theorem follows_identifier : Follows identifier Never :=
  ((follows_one (by decide)).seq_never
    ((follows_one (by decide)).star_never rfl)).node

/-! ## Decorators -/

/-- The expression of a decorator follows. At a continued literal it is refused, or it ends before a
literal or a group. -/
theorem follows_decoratorExpr : Follows decoratorExpr (Blocks (StartsIn openers)) := by
  have hpiece : Follows (orElse continuation (exprPiece lineEnds)) Fails := fun s hs =>
    (follows_continuation s hs).orElse (followsAt_exprPiece hs (.inr (List.Subset.refl _)))
      (fun _ _ _ h => h.elim) fun _ h => h
  refine ((hpiece.piecewise rfl).plus rfl fun s f r hs hrun hnone => ?_).node
  have hparts := run_orElse_eq_none.mp hnone
  rcases run_orElse.mp hrun with hrun | ⟨-, hrun⟩
  · rw [follows_continuation.agrees s hs, hrun] at hparts
    simp at hparts
  · exact startsIn_of_exprPiece (.inl (List.Subset.refl _)) hrun hparts.2

/-- A decorator follows, and with a continued literal inside it is refused. -/
theorem follows_decorator : Follows decorator Fails := by
  have hcomment : Follows (optional comment) Never := follows_comment.orElse_never follows_empty
  have hend : Follows (seq (optional comment) lineBreak) Fails :=
    (hcomment.seq_never follows_lineBreak).of_never
  have hexpr := follows_decoratorExpr.seq_refused hend fun _ => StartsIn.refused (by decide)
  exact (follows_inlineSpaces.seq_never ((follows_chr (by decide)).seq_never
    (follows_inlineSpaces.seq_never hexpr))).node

/-- A decorator with the blank lines behind it follows. -/
theorem follows_decoratorGroup : Follows decoratorGroup Fails :=
  follows_decorator.seq_fails follows_blankLines.of_never

/-! ## Parameters -/

/-- The characters before which a parameter may be left unread: those that start an annotation, a
default value, a literal or a group. -/
def stops : List Char := '=' :: ':' :: openers

/-- An annotation follows. At a continued literal it is left out, or ends before it. -/
theorem follows_hint : Follows (optional hint) (Stops (StartsIn (':' :: openers))) := by
  have hhint : Follows hint (Blocks (StartsIn openers)) :=
    (follows_chr (by decide)).seq_never
      (follows_gaps.seq_never (follows_expr (.inr (by decide))).node)
  refine (hhint.mono fun m h r hr => (h r hr).mono (List.subset_cons_self _ _)).optional ?_
  intro s f r hrun _
  obtain ⟨_, t, _, hcolon, -, -⟩ := run_seq.mp hrun
  obtain ⟨rfl, -⟩ := run_chr.mp hcolon
  exact StartsIn.crlf (by decide) ⟨':', List.mem_cons_self, t, rfl⟩

/-- A default value follows. At a continued literal it is left out, or ends before it. -/
theorem follows_defaultValue : Follows (optional defaultValue) (Stops (StartsIn stops)) := by
  have hdefault : Follows defaultValue (Blocks (StartsIn openers)) :=
    (follows_chr (by decide)).seq_never
      (follows_gaps.seq_never (follows_expr (.inr (by decide))).node)
  refine (hdefault.mono fun m h r hr => (h r hr).mono (by decide)).optional ?_
  intro s f r hrun _
  obtain ⟨_, t, _, hsign, -, -⟩ := run_seq.mp hrun
  obtain ⟨rfl, -⟩ := run_chr.mp hsign
  exact StartsIn.crlf (by decide) ⟨'=', List.mem_cons_self, t, rfl⟩

/-- A variadic parameter, behind its stars. -/
theorem follows_variadic (cs : List Char) {rule : Rule}
    (hcs : ∀ c ∈ cs, c ∉ lineEnds ++ '#' :: quotes) :
    Follows (node rule (inOrder [word cs, star gap, identifier, star gap, optional hint]))
      (Stops (StartsIn stops)) := by
  have hhint := follows_hint.mono fun m (h : Stops _ m) =>
    (⟨h.choose, h.choose_spec.1, h.choose_spec.2.mono (by decide)⟩ : Stops (StartsIn stops) m)
  exact ((follows_word hcs).seq_never (follows_gaps.seq_never
    (follows_identifier.seq_never (follows_gaps.seq_never hhint)))).node

/-- A parameter follows. At a continued literal it ends before a sign of what is left out. -/
theorem follows_parameter : Follows parameter (Stops (StartsIn stops)) := by
  have hdefault := follows_gaps.seq_never follows_defaultValue
  have hhint := follows_hint.seq_passed hdefault (by decide) (by decide) (by decide)
  exact (follows_identifier.seq_never (follows_gaps.seq_never hhint)).node

/-- An item of a list follows, and ends at a continued literal as a parameter does. -/
theorem follows_parameterItem : Follows parameterItem (Stops (StartsIn stops)) := by
  have hmarker : ∀ (c : Char) (rule : Rule), c ∉ lineEnds ++ '#' :: quotes →
      Follows (node rule (chr c)) (Stops (StartsIn stops)) :=
    fun c rule hc => (follows_chr hc).node.of_never
  exact (follows_variadic ['*', '*'] (by decide)).orElse
    ((follows_variadic ['*'] (by decide)).orElse
      ((hmarker '*' _ (by decide)).orElse ((hmarker '/' _ (by decide)).orElse follows_parameter)))

/-- A comma and the next item. -/
def nextItem : Pattern Rule :=
  inOrder [star gap, chr ',', star gap, parameterItem]

/-- A comma with one more item follows. -/
theorem follows_nextItem : Follows nextItem (Stops (StartsIn stops)) :=
  follows_gaps.seq_never ((follows_chr (by decide)).seq_never
    (follows_gaps.seq_never follows_parameterItem))

/-- The items of a list follow. At a continued literal they end before it. -/
theorem follows_parameterList : Follows parameterList (Stops (StartsIn stops)) := by
  have hcomma : Follows (optional (seq (star gap) (chr ','))) Never :=
    (follows_gaps.seq_never (follows_chr (by decide))).orElse_never follows_empty
  have hitems : Follows (star nextItem) (Stops (StartsIn stops)) :=
    follows_nextItem.star_stops rfl fun _ => StartsIn.refused (by decide)
  have hrest := hitems.seq_passed hcomma.of_never (by decide) (List.Subset.refl _) (by decide)
  exact follows_parameterItem.seq_passed hrest (by decide) (List.Subset.refl _) (by decide)

/-- A list in parentheses follows, and with a continued literal inside it is refused. -/
theorem follows_parameters : Follows parameters Fails := by
  have hlist := follows_parameterList.seq_passed follows_gaps.of_never (by decide)
    (List.Subset.refl _) (by decide)
  have hoptional : Follows (optional (seq parameterList (star gap))) (Stops (StartsIn stops)) :=
    hlist.orElse follows_empty.of_never
  have hclose : Follows (chr ')') Fails := (follows_chr (by decide)).of_never
  have hrest := (hoptional.mono fun _ => Stops.blocks).seq_refused hclose fun _ =>
    StartsIn.refused (by decide)
  exact ((follows_chr (by decide)).seq_never (follows_gaps.seq_never hrest)).node

/-! ## The header -/

/-- The type behind the arrow follows. At a continued literal it is left out, or ends before it. -/
theorem follows_returnHint : Follows (optional returnHint) (Stops (StartsIn ('-' :: openers))) := by
  have hhint : Follows returnHint (Blocks (StartsIn openers)) :=
    ((follows_word (by decide)).seq_never
      (follows_inlineSpaces.seq_never (follows_expr (.inl (by decide))).node)).node
  refine (hhint.mono fun m h r hr => (h r hr).mono (List.subset_cons_self _ _)).optional ?_
  intro s f r hrun _
  obtain ⟨_, hrun, -⟩ := run_node.mp hrun
  obtain ⟨_, _, _, harrow, -, -⟩ := run_seq.mp hrun
  obtain ⟨_, t, _, hdash, -, -⟩ := run_seq.mp harrow
  obtain ⟨rfl, -⟩ := run_chr.mp hdash
  exact StartsIn.crlf (by decide) ⟨'-', List.mem_cons_self, t, rfl⟩

/-- A header follows, and with a continued literal inside it is refused. -/
theorem follows_defHeader : Follows defHeader Fails := by
  have hcolon : Follows (seq (star inlineSpace) (chr ':')) Fails :=
    (follows_inlineSpaces.seq_never (follows_chr (by decide))).of_never
  have hend := (follows_returnHint.mono fun _ => Stops.blocks).seq_refused hcolon fun _ =>
    StartsIn.refused (by decide)
  have hparameters := follows_parameters.seq_fails (follows_inlineSpaces.seq_never hend)
  have hname : Follows functionName Never := follows_identifier.node
  have hspaces : Follows (plus inlineSpace) Never :=
    follows_inlineSpace.seq_never follows_inlineSpaces
  have hasync : Follows (optional (seq asyncKeyword (plus inlineSpace))) Never :=
    ((follows_word (by decide)).node.seq_never hspaces).orElse_never follows_empty
  exact (follows_inlineSpaces.seq_never (hasync.seq_never ((follows_word (by decide)).seq_never
    (hspaces.seq_never (hname.seq_never (follows_inlineSpaces.seq_never hparameters)))))).node

/-- Where a decorator starts in one text, there is no header in the other one. -/
theorem no_header_of_decorator (hs : '\r' ∉ s) (h : decorator.run s = some (f, r)) :
    defHeader.run (crlf s) = none := by
  obtain ⟨g, hg, rfl⟩ := run_node.mp h
  obtain ⟨f₁, t, f₂, hspaces, hrest, rfl⟩ := run_seq.mp hg
  obtain ⟨_, t', _, hsign, -, -⟩ := run_seq.mp hrest
  obtain ⟨rfl, -⟩ := run_chr.mp hsign
  have hcrlf := follows_inlineSpaces.agrees s hs
  rw [hspaces] at hcrlf
  by_contra hne
  obtain ⟨⟨f', r'⟩, hheader⟩ := Option.ne_none_iff_exists'.mp hne
  obtain ⟨g', hg', -⟩ := run_node.mp hheader
  obtain ⟨f₁', u, f₂', hspaces', hrest', -⟩ := run_seq.mp hg'
  obtain ⟨-, rfl⟩ := Prod.mk.inj (Option.some.inj (hcrlf.symm.trans hspaces'))
  -- Behind the blanks stands the sign of the decorator.
  rw [Text.crlf_cons (by decide), run_of_peek_false (by decide)] at hrest'
  simp at hrest'

/-- Blank lines and decorators end where the header starts, or before a decorator. -/
theorem follows_leadPattern :
    Follows leadPattern (Stops fun s => defHeader.run s = none) := by
  refine follows_blankLines.seq_never ((follows_decoratorGroup.piecewise rfl).star_fails rfl ?_)
  intro s f r hs hrun _
  obtain ⟨_, _, _, hdecorator, -, -⟩ := run_seq.mp hrun
  exact no_header_of_decorator hs hdecorator

/-! ## Definitions -/

/-- A definition needs a header behind its lead. -/
theorem isEmpty_division {t : List Char} (hlead : leadPattern.run s = some (f, t))
    (hheader : defHeader.run t = none) : IsEmpty (Division s) := by
  refine ⟨fun d => ?_⟩
  obtain ⟨-, rfl⟩ := Prod.mk.inj (Option.some.inj (hlead.symm.trans d.run_lead))
  rw [d.run_header] at hheader
  simp at hheader

/-- A division with a carriage return before every line feed, unless a literal before the body goes
over the end of a line in one pair of quotes; then the other text is no definition. -/
theorem division_crlf (hs : '\r' ∉ s) (d : Division s) : ∃ ls, Scan s d.body ls ∧
    ((¬ HasContinued ls ∧ ∃ e : Division (crlf s),
        e.lead = d.lead.crlf ∧ e.header = d.header.crlf ∧ e.body = crlf d.body) ∨
      (HasContinued ls ∧ IsEmpty (Division (crlf s)))) := by
  obtain ⟨ls₁, hscan₁, hcases₁⟩ := (follows_leadPattern s hs).2 _ _ d.run_lead
  obtain ⟨ls₂, hscan₂, hcases₂⟩ :=
    (follows_defHeader _ (not_mem_rest hs d.run_lead)).2 _ _ d.run_header
  refine ⟨ls₁ ++ ls₂, hscan₁.trans hscan₂, ?_⟩
  rw [hasContinued_append]
  rcases hcases₁ with ⟨hnot₁, hlead⟩ | ⟨hbreak₁, t, hstop, hheader⟩
  · rcases hcases₂ with ⟨hnot₂, hheader⟩ | ⟨hbreak₂, hfails⟩
    · rw [Text.crlf_append] at hlead hheader
      rw [← Forest.text_crlf] at hlead hheader
      exact .inl ⟨by simp [hnot₁, hnot₂],
        ⟨d.lead.crlf, d.header.crlf, crlf d.body, hlead, hheader⟩, rfl, rfl, rfl⟩
    · refine .inr ⟨.inr hbreak₂, isEmpty_division hlead ?_⟩
      simpa [Fails, restOf] using hfails
  · obtain ⟨m, hlead, rfl⟩ := Option.map_eq_some_iff.mp hstop
    exact .inr ⟨.inl hbreak₁, isEmpty_division hlead hheader⟩

/-- A text that is no definition is none with other line endings. -/
theorem isEmpty_division_crlf (hs : '\r' ∉ s) (h : IsEmpty (Division s)) :
    IsEmpty (Division (crlf s)) := by
  obtain ⟨f, t, hlead⟩ := exists_run_of_isTotal (p := leadPattern) (by decide) s
  have hheader : defHeader.run t = none := by
    by_contra hne
    obtain ⟨⟨g, r⟩, hrun⟩ := Option.ne_none_iff_exists'.mp hne
    obtain ⟨header, -, rfl⟩ := run_node.mp hrun
    have ht : t = header.text ++ r := by
      have := lossless_run defHeader _ _ _ hrun
      simpa [Forest.text] using this
    subst ht
    exact h.false ⟨f, header, r, hlead, hrun⟩
  -- The lead may stop at a literal, but then it stops where no header starts either.
  obtain ⟨ls, -, ⟨-, hcrlf⟩ | ⟨-, u, hstop, hnone⟩⟩ := (follows_leadPattern s hs).2 f t hlead
  · exact isEmpty_division hcrlf ((follows_defHeader t (not_mem_rest hs hlead)).1 hheader)
  · obtain ⟨m, hcrlf, rfl⟩ := Option.map_eq_some_iff.mp hstop
    exact isEmpty_division hcrlf hnone

end UdfBridge.Source
