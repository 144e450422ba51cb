import UdfBridge.Proofs.Source.KeywordLine
import UdfBridge.Proofs.Source.Swapped

/-!
# A comment in the place of a space

A `Remark` is a space and the same space with a comment and a line feed behind it. The two are the same
for the rules that take blanks where lines may break (`Remark.alike_gaps`), and inside of brackets. An
expression is another matter, for it has no comments outside of brackets: in the text with the comment
it ends there, and in the other one it goes on (`Remark.exprAt_plus`). What it goes on with is blank, so
that it does not count, or there is a character of it behind the comment at which no list of parameters
goes on (`Remark.blank_or_stuck`).
-/

namespace UdfBridge.Source

open Grammar
open Grammar.Pattern

variable {p q : Pattern Rule} {c : Char} {s t r u : List Char} {f g h : Forest Rule}
  {ends : List Char}

/-- A space, and the text of a comment that may stand behind it. -/
structure Remark where
  /-- The text of the comment. -/
  comment : List Char
  /-- What stands behind the space. -/
  after : List Char
  /-- The comment stands on one line. -/
  line : ∀ c ∈ comment, c ∉ lineEnds

namespace Remark

variable (x : Remark)

/-- The text from the comment on. -/
def cutText : List Char := '#' :: (x.comment ++ '\n' :: x.after)

/-- The text from the space on. -/
def oldText : List Char := ' ' :: x.after

/-- The text from the space on, with the comment. -/
def newText : List Char := ' ' :: x.cutText

/-- The comment is read up to the line feed behind it. -/
theorem run_comment : Source.comment.run x.cutText =
    some (plainForest ('#' :: x.comment), '\n' :: x.after) := by
  have hmany : many (noneOf lineEnds : Pattern Rule).run (x.comment ++ '\n' :: x.after) =
      (plainForest x.comment, '\n' :: x.after) := by
    have hline := x.line
    generalize x.comment = w at hline
    induction w with
    | nil => exact many_of_none rfl
    | cons c w ih =>
      obtain ⟨hc, hw⟩ := List.forall_mem_cons.mp hline
      have hrun : (noneOf lineEnds : Pattern Rule).run (c :: (w ++ '\n' :: x.after)) =
          some (.char c .nil, w ++ '\n' :: x.after) := by
        rw [noneOf, run, if_pos (by simpa using hc)]
      rw [List.cons_append, many_of_some hrun (by simp), ih hw]
      rfl
  exact run_seq.mpr ⟨_, _, _, run_chr.mpr ⟨rfl, rfl⟩, by rw [run_star, hmany], rfl⟩

/-- The comment and the line feed are items. -/
theorem chain_newText : Chain groupItem x.newText x.after := by
  have hplain : ' ' ∉ '#' :: brackets ++ quotes ∧ '\n' ∉ '#' :: brackets ++ quotes := by decide
  exact .cons (run_plainItem hplain.1 _).1 (.cons (run_groupItem.mpr (.inr (.inr (.inl x.run_comment))))
    (.of_run (run_plainItem hplain.2 _).1))

/-- The space, with and without the comment, as tokens. -/
def swap : Swap where
  first := ' '
  old := x.after
  new := x.cutText
  after := x.after
  first_mem := by decide
  first_ne := by decide
  literal := by
    have hnone := run_of_peek_false (peek_stringLiteral (c := ' ') (by decide))
    exact .refused (hnone _) (hnone _)
  group := .refused rfl rfl
  inside := fun w ws hw => Behind.alikeAt_inside hw
    (.of_run (run_plainItem (by decide) _).1) x.chain_newText ⟨rfl, List.suffix_refl _⟩

/-- The texts are steady and do not stand at the space. -/
def Apart (s t : List Char) : Prop :=
  x.swap.Steady s t ∧ s ≠ x.oldText

variable {x}

/-- The space is the next character in both texts. -/
theorem eq_of_steady (hst : x.swap.Steady x.oldText t) : t = x.newText :=
  Swap.eq_new_of_steady (Nat.le_refl _) hst

/-- Texts apart from the space are steady. -/
theorem Apart.steady (hst : x.Apart s t) : x.swap.Steady s t := hst.1

/-- A character is read alike, whether it is a space or not. -/
theorem alike_one {accepts : Char → Bool} (h : ∀ c ∈ '#' :: quotes, accepts c = false) :
    Alike x.Apart x.swap.Steady (one accepts : Pattern Rule).run := by
  rintro s t ⟨hst | hst, hne⟩
  · rcases Swap.ahead_cases hst with ⟨rfl, -⟩ | ⟨c, u, v, rfl, rfl, hc | hrest⟩
    · exact absurd rfl hne
    · exact .one fun haccepts => by simp [h c hc] at haccepts
    · exact .one fun _ => .inl hrest
  · exact (hst.alikeAt _).mono fun _ _ => Swap.steady_of_behind

/-- What is read alike on steady texts is read alike apart from the space. -/
theorem alike_of_steady (hp : Alike x.swap.Steady x.swap.Steady p.run) :
    Alike x.Apart x.swap.Steady p.run :=
  hp.mono (fun _ _ => Apart.steady) fun _ _ => id

/-! ## Blanks -/

/-- A blank is read alike but for the space. -/
theorem alike_gap : Alike x.Apart x.swap.Steady gap.run :=
  ((alike_one (by decide)).orElse (alike_of_steady Swap.alike_continuation)).orElse
    ((alike_of_steady Swap.alike_lineBreak).orElse (alike_of_steady Swap.alike_comment))

/-- Blanks take the comment with them. -/
theorem gaps_cutText : (many gap.run x.cutText).2 = (many gap.run x.after).2 := by
  have hcomment : gap.run x.cutText = some (plainForest ('#' :: x.comment), '\n' :: x.after) :=
    run_orElse.mpr (.inr ⟨rfl, run_orElse.mpr (.inr ⟨rfl, x.run_comment⟩)⟩)
  have hfeed : gap.run ('\n' :: x.after) = some (.char '\n' .nil, x.after) := rfl
  rw [many_of_some hcomment (length_lt_of_consumes rfl hcomment),
    many_of_some hfeed (length_lt_of_consumes rfl hfeed)]

/-- The blanks from the space on end where those behind it end. -/
theorem gaps_oldText : (many gap.run x.oldText).2 = (many gap.run x.after).2 := by
  have hspace : gap.run x.oldText = some (.char ' ' .nil, x.after) := rfl
  rw [many_of_some hspace (length_lt_of_consumes rfl hspace)]

/-- The blanks from the space on end there with the comment too. -/
theorem gaps_newText : (many gap.run x.newText).2 = (many gap.run x.after).2 := by
  have hspace : gap.run x.newText = some (.char ' ' .nil, x.cutText) := rfl
  rw [many_of_some hspace (length_lt_of_consumes rfl hspace), gaps_cutText]

/-- What a repetition leaves is the end of the text. -/
theorem many_suffix (p : Pattern Rule) (s : List Char) : (many p.run s).2 <:+ s :=
  ⟨_, ((lossless_run p).many_text s).symm⟩

/-- Texts that are the same behind their blanks. -/
def Level (x : Remark) (s t : List Char) : Prop :=
  Behind x.after (many gap.run s).2 (many gap.run t).2

/-- Blanks leave texts that are the same. -/
theorem alikeAt_gaps_of_level (h : x.Level s t) : AlikeAt x.swap.Steady (star gap).run s t :=
  .matched _ _ _ _ run_star run_star
    ((outline_many rfl s).trans (outline_many rfl t).symm) (.inr h)

/-- With the comment or without it, the texts from the space on are the same behind their blanks. -/
theorem level_oldText : x.Level x.oldText x.newText :=
  ⟨gaps_oldText.trans gaps_newText.symm, gaps_oldText ▸ many_suffix gap x.after⟩

/-- Steady texts, or texts that are the same behind their blanks. -/
def Loose (x : Remark) (s t : List Char) : Prop :=
  x.swap.Steady s t ∨ x.Level s t

/-- Blanks are read alike, with the comment or without it. -/
theorem alike_gaps : Alike x.Loose x.swap.Steady (star gap).run := by
  have hcases : ∀ s t, x.swap.Steady s t →
      x.Apart s t ∨ AlikeAt x.swap.Steady (star gap).run s t := by
    intro s t hst
    by_cases hs : s = x.oldText
    · subst hs
      obtain rfl := eq_of_steady hst
      exact .inr (alikeAt_gaps_of_level level_oldText)
    · exact .inl ⟨hst, hs⟩
  rintro s t (hst | hst)
  · exact (hcases s t hst).elim (alike_gap.star_of rfl (fun _ _ => Apart.steady) hcases s t) id
  · exact alikeAt_gaps_of_level hst

/-! ## Expressions -/

/-- A piece of an expression is read alike but for the space. -/
theorem alike_exprPiece (ends : List Char) :
    Alike x.Apart x.swap.Steady (exprPiece ends).run := by
  refine (alike_of_steady Swap.alike_stringLiteral).orElse
    ((alike_of_steady Swap.alike_bracketGroup).orElse (alike_one fun c hc => ?_))
  have hmem : c ∈ notPlain ends :=
    subset_notPlain (by decide : '#' :: quotes ⊆ '#' :: brackets ++ quotes) hc
  show (!(notPlain ends).contains c) = false
  rw [List.contains_iff_mem.mpr hmem]
  rfl

/-- A piece of an expression is one of an expression that nothing ends. -/
theorem run_exprPiece_nil (h : (exprPiece ends).run s = some (f, r)) :
    (exprPiece []).run s = some (f, r) := by
  rcases run_orElse.mp h with h | ⟨hliteral, h⟩
  · exact run_orElse.mpr (.inl h)
  rcases run_orElse.mp h with h | ⟨hgroup, h⟩
  · exact run_orElse.mpr (.inr ⟨hliteral, run_orElse.mpr (.inl h)⟩)
  refine run_orElse.mpr (.inr ⟨hliteral, run_orElse.mpr (.inr ⟨hgroup, ?_⟩)⟩)
  obtain ⟨c, haccepts, hs⟩ := run_one.mp h
  refine run_one.mpr ⟨c, ?_, hs⟩
  have hc : c ∉ ends ++ '#' :: brackets ++ quotes := by simpa using haccepts
  rw [List.append_assoc, List.mem_append, not_or] at hc
  simpa using hc.2

/-- The space stands directly in an expression with the match `f`, behind whole pieces of it. -/
def Crosses (x : Remark) (f : Forest Rule) (s e : List Char) : Prop :=
  ∃ y, f.text = y ++ ' ' :: e ∧ s = y ++ x.oldText ∧ Chain (exprPiece []) s x.oldText

/-- A text that starts with a piece of an expression has pieces up to the space if it is the next, or if
the rest has them. -/
theorem crosses_append {e : List Char} (hs : s ≠ x.oldText) (h : (exprPiece ends).run s = some (f, r)) :
    x.Crosses (f ++ g) s e ↔ x.Crosses g r e := by
  have hpiece := run_exprPiece_nil h
  have htext := lossless_run _ _ _ _ h
  constructor
  · rintro ⟨y, hy, hsy, hchain⟩
    cases hchain with
    | nil => exact absurd rfl hs
    | @cons _ r' _ f' hfirst hrest =>
      obtain ⟨rfl, rfl⟩ := Prod.mk.inj (Option.some.inj (hpiece.symm.trans hfirst))
      obtain ⟨z, rfl⟩ := hrest.exists_text
      rw [htext, ← List.append_assoc] at hsy
      obtain rfl := List.append_cancel_right hsy
      rw [Forest.text_append, List.append_assoc] at hy
      exact ⟨z, List.append_cancel_left hy, rfl, hrest⟩
  · rintro ⟨y, hy, rfl, hchain⟩
    refine ⟨f.text ++ y, ?_, ?_, .cons hpiece hchain⟩
    · rw [Forest.text_append, hy, List.append_assoc]
    · rw [htext, List.append_assoc]

/-- What can become of an expression: it is matched in neither text; in both, up to steady rests; or in
the text with the comment it ends there, and in the other one it goes on. -/
inductive ExprAt (x : Remark) (ends : List Char) (step : Step Rule) (s t : List Char) : Prop where
  | refused (hs : step s = none) (ht : step t = none)
  | matched (f : Forest Rule) (r : List Char) (g : Forest Rule) (u : List Char)
    (hs : step s = some (f, r)) (ht : step t = some (g, u)) (hclear : ∀ e, ¬ x.Crosses f s e)
    (hrest : x.swap.Steady r u)
  | cut (f g : Forest Rule) (hs : step s = some (f, (many (exprPiece ends).run x.after).2))
    (ht : step t = some (g, x.cutText))
    (hcrosses : x.Crosses f s (many (exprPiece ends).run x.after).1.text)

/-- No piece of an expression starts with the comment. -/
theorem exprPiece_cutText : (exprPiece ends).run x.cutText = none := by
  rw [cutText, run_exprPiece (by decide), if_pos (subset_notPlain (List.Subset.refl _) (by decide))]

/-- The space is a piece of an expression that it does not end. -/
theorem exprPiece_space (hends : ' ' ∉ ends) (s : List Char) :
    (exprPiece ends).run (' ' :: s) = some (.char ' ' .nil, s) := by
  rw [run_exprPiece (by decide), if_neg]
  rw [notPlain, List.append_assoc, List.mem_append, not_or]
  exact ⟨hends, by decide⟩

/-- The pieces of an expression. The induction is on the rests that they leave. -/
theorem exprAt_star (hends : ' ' ∉ ends) (hst : x.swap.Steady s t) :
    x.ExprAt ends (star (exprPiece ends)).run s t := by
  have hconsumes : (exprPiece ends).consumes = true := rfl
  induction s using rest_induction hconsumes generalizing t with
  | step s ih =>
    by_cases hne : s = x.oldText
    · -- The blank at the place is a piece in both texts, and the comment behind it is none.
      subst hne
      obtain rfl := eq_of_steady hst
      have hs := exprPiece_space hends x.after
      have ht := exprPiece_space hends x.cutText
      refine .cut (.char ' ' (many (exprPiece ends).run x.after).1) (.char ' ' .nil) ?_ ?_
        ⟨[], rfl, rfl, .nil _⟩
      · rw [run_star, oldText, many_of_some hs (length_lt_of_consumes hconsumes hs)]
        rfl
      · rw [run_star, newText, many_of_some ht (length_lt_of_consumes hconsumes ht),
          many_of_none exprPiece_cutText]
        rfl
    cases alike_exprPiece ends s t ⟨hst, hne⟩ with
    | refused hs ht =>
      refine .matched .nil s .nil t (by rw [run_star, many_of_none hs])
        (by rw [run_star, many_of_none ht]) ?_ hst
      -- The repetition matched nothing, so it did not cross the place.
      rintro e ⟨y, hy, -⟩
      simp [Forest.text] at hy
    | matched f r g u hs ht _ hrest =>
      cases ih hs hrest with
      | refused hr _ => simp [run_star] at hr
      | matched f' r' g' u' hr hu hclear hrest' =>
        refine .matched (f ++ f') r' (g ++ g') u' (by rw [run_star_of_some hconsumes hs, hr]; rfl)
          (by rw [run_star_of_some hconsumes ht, hu]; rfl) (fun e => ?_) hrest'
        rw [crosses_append hne hs]
        exact hclear e
      | cut f' g' hr hu hcrosses =>
        exact .cut (f ++ f') (g ++ g') (by rw [run_star_of_some hconsumes hs, hr]; rfl)
          (by rw [run_star_of_some hconsumes ht, hu]; rfl) ((crosses_append hne hs).mpr hcrosses)

/-- An expression is its pieces, if there is a first one. -/
theorem run_plus (hconsumes : p.consumes = true) (s : List Char) :
    (plus p).run s = (p.run s).bind fun _ => (star p).run s := by
  rw [plus, run, run_star]
  cases hrun : p.run s with
  | none => rfl
  | some m =>
    rw [many_of_some (f := m.1) (r := m.2) hrun (length_lt_of_consumes hconsumes hrun)]
    rfl

/-- An expression is matched in neither of two steady texts, or in both, or the comment ends it in
the one. -/
theorem exprAt_plus (hends : ' ' ∉ ends) (hst : x.swap.Steady s t) :
    x.ExprAt ends (plus (exprPiece ends)).run s t := by
  have hplus := run_plus (p := exprPiece ends) rfl
  -- Both texts have a first piece or neither has one, and then the repetition may be read instead.
  have hfirst : ((exprPiece ends).run s = none ∧ (exprPiece ends).run t = none) ∨
      ∃ m n, (exprPiece ends).run s = some m ∧ (exprPiece ends).run t = some n := by
    by_cases hne : s = x.oldText
    · subst hne
      obtain rfl := eq_of_steady hst
      exact .inr ⟨_, _, exprPiece_space hends _, exprPiece_space hends _⟩
    · cases alike_exprPiece ends s t ⟨hst, hne⟩ with
      | refused hs ht => exact .inl ⟨hs, ht⟩
      | matched f r g u hs ht _ _ => exact .inr ⟨_, _, hs, ht⟩
  rcases hfirst with ⟨hs, ht⟩ | ⟨m, n, hs, ht⟩
  · exact .refused (by rw [hplus, hs]; rfl) (by rw [hplus, ht]; rfl)
  · have hs' : (plus (exprPiece ends)).run s = (star (exprPiece ends)).run s := by
      rw [hplus, hs]
      rfl
    have ht' : (plus (exprPiece ends)).run t = (star (exprPiece ends)).run t := by
      rw [hplus, ht]
      rfl
    cases exprAt_star hends hst with
    | refused hs _ => simp [run_star] at hs
    | matched f r g u hs ht hclear hrest =>
      exact .matched f r g u (hs'.trans hs) (ht'.trans ht) hclear hrest
    | cut f g hs ht hcrosses => exact .cut f g (hs'.trans hs) (ht'.trans ht) hcrosses

/-! ## What follows the space in an expression -/

/-- A character at which an expression ends, or a list of parameters, is no piece of it. -/
theorem avoids_of_exprPiece (hends : ends ⊆ [',', '=']) (h : (exprPiece ends).run s = some (f, r)) :
    Avoids (')' :: ends) s := by
  cases s with
  | nil => exact absurd (length_lt_of_consumes rfl h) (Nat.not_lt_zero _)
  | cons c s =>
    refine ⟨c, fun hc => ?_, s, rfl⟩
    have hmem : c ∈ notPlain ends := by
      rcases List.mem_cons.mp hc with rfl | hc
      · exact subset_notPlain (List.Subset.refl _) (by decide)
      · rw [notPlain, List.append_assoc]
        exact List.mem_append_left _ hc
    have hopen : c ∉ openers := by
      rcases List.mem_cons.mp hc with rfl | hc
      · decide
      · exact (by decide : ∀ c ∈ [',', '='], c ∉ openers) c (hends hc)
    rw [run_exprPiece hopen, if_pos hmem] at h
    simp at h

/-- Blanks that are no comment are pieces of an expression. -/
theorem many_exprPiece_of_gap (hends : ends ⊆ [',', '=']) (h : gap.run s = some (f, r))
    (hs : ∀ a, s ≠ '#' :: a) :
    (many (exprPiece ends).run s).2 = (many (exprPiece ends).run r).2 := by
  have hblanks : f.text ⊆ headerBlanks := by
    rcases run_orElse.mp h with h | ⟨-, h⟩
    · exact madeOf_inlineSpace _ _ _ h
    rcases run_orElse.mp h with h | ⟨-, h⟩
    · exact madeOf_lineBreak _ _ _ h
    · obtain ⟨a, rfl⟩ := exists_sign_of_comment h
      exact absurd rfl (hs a)
  rw [lossless_run _ _ _ _ h]
  refine many_rest_of_chars (fun c hc s => ?_) r
  obtain ⟨hopen, hplain, hend⟩ := (by decide : ∀ c ∈ headerBlanks,
    c ∉ openers ∧ c ∉ '#' :: brackets ++ quotes ∧ c ∉ [',', '=']) c (hblanks hc)
  rw [run_exprPiece hopen, if_neg]
  rw [notPlain, List.append_assoc, List.mem_append, not_or]
  exact ⟨fun hc => hend (hends hc), hplain⟩

/-- An expression goes on behind blanks, or it ends in them. The induction is on the blanks. -/
theorem blank_or_stuck (hends : ends ⊆ [',', '=']) (s : List Char) :
    ((many (exprPiece ends).run s).2.length < (many gap.run s).2.length ∧
        Avoids (')' :: ends) (many gap.run s).2) ∨
      ((many gap.run s).2.length ≤ (many (exprPiece ends).run s).2.length ∧
        (many gap.run (many (exprPiece ends).run s).2).2 = (many gap.run s).2) := by
  have hconsumes : (exprPiece ends).consumes = true := rfl
  fun_induction many gap.run s with
  | case1 s hnone =>
    -- No gap is in front, so either the expression goes on here or it ends too.
    cases hpiece : (exprPiece ends).run s with
    | none =>
      rw [many_of_none hpiece]
      exact .inr ⟨Nat.le_refl _, by rw [many_of_none hnone]⟩
    | some m =>
      have hlt := length_lt_of_consumes (f := m.1) (r := m.2) hconsumes hpiece
      left
      rw [many_of_some (f := m.1) (r := m.2) hpiece hlt]
      exact ⟨((many_suffix (exprPiece ends) _).length_le).trans_lt hlt,
        avoids_of_exprPiece (f := m.1) (r := m.2) hends hpiece⟩
  | case2 s f r hrun hlt g t hm ih =>
    by_cases hs : ∀ a, s ≠ '#' :: a
    · rw [many_exprPiece_of_gap hends hrun hs]
      rwa [hm] at ih
    · -- A comment is no piece of an expression.
      push Not at hs
      obtain ⟨a, rfl⟩ := hs
      have hpiece : (exprPiece ends).run ('#' :: a) = none := by
        rw [run_exprPiece (by decide), if_pos (subset_notPlain (List.Subset.refl _) (by decide))]
      right
      rw [many_of_none hpiece, many_of_some hrun hlt, hm]
      have hle := (many_suffix gap r).length_le
      rw [hm] at hle
      exact ⟨hle.trans hlt.le, rfl⟩
  | case3 s f r hrun hlt =>
    exact absurd (length_lt_of_consumes (p := gap) rfl hrun) hlt

end Remark

end UdfBridge.Source
