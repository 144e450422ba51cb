import UdfBridge.Proofs.Source.Aligned
import UdfBridge.Proofs.Source.RemovalLead
import UdfBridge.Proofs.Source.Scanned
import UdfBridge.Proofs.Source.Sealed

/-!
# One token in place of another

A `Swap` is a place at which two texts go on with different tokens, and behind them with the same
text. The tokens are string literals, groups in brackets, or a space and what may stand in its place.
Two texts are `Steady` if they are aligned up to such a place or are the same behind it.

Groups take the tokens as a whole. So every rule of the grammar does the same on steady texts and
leaves steady texts, if the tokens are no spaces, which other rules look at as well. The list of
parameters is read so if the tokens are string literals. Where they are groups, one of them may be that
list, and only what stands before it and behind it is read so.
-/

namespace UdfBridge.Source

open Grammar
open Grammar.Pattern

variable {p q : Pattern Rule} {c v : Char} {s t r u after : List Char} {f g : Forest Rule}

/-- The texts are the same, and what is left behind a place. -/
def Behind (after s t : List Char) : Prop :=
  s = t ∧ s <:+ after

/-- What a match leaves is the end of the text. -/
theorem suffix_of_run (h : p.run s = some (f, r)) : r <:+ s :=
  ⟨f.text, (lossless_run p _ _ _ h).symm⟩

/-- Behind the place everything is read alike. -/
theorem Behind.alikeAt (p : Pattern Rule) (h : Behind after s t) :
    AlikeAt (Behind after) p.run s t := by
  obtain ⟨rfl, hs⟩ := h
  cases hrun : p.run s with
  | none => exact .refused hrun hrun
  | some m => exact .matched m.1 m.2 m.1 m.2 hrun hrun rfl ⟨rfl, (suffix_of_run hrun).trans hs⟩

/-- Behind the place open groups are closed alike. -/
theorem Behind.alikeAt_closeGroups (leaf : Pattern Rule) (ws : List Char) (h : Behind after s t) :
    AlikeAt (Behind after) (closeGroups leaf.run ws) s t := by
  obtain ⟨rfl, hs⟩ := h
  cases hrun : closeGroups leaf.run ws s with
  | none => exact .refused hrun hrun
  | some m =>
    have hsuffix : m.2 <:+ s := ⟨m.1.text, ((lossless_run leaf).closeGroups ws _ _ _ hrun).symm⟩
    exact .matched m.1 m.2 m.1 m.2 hrun hrun rfl ⟨rfl, hsuffix.trans hs⟩

/-- The characters with which the tokens at a place may start, and other tokens than those. -/
def tokenSigns : List Char := ' ' :: '(' :: '#' :: quotes

/-- A place at which two texts go on with different tokens and then with the same text. -/
structure Swap where
  /-- The character that both tokens start with. -/
  first : Char
  /-- What follows it in the one text. -/
  old : List Char
  /-- What follows it in the other text. -/
  new : List Char
  /-- What stands behind both tokens. -/
  after : List Char
  /-- The tokens are spaces, string literals or groups. -/
  first_mem : first ∈ tokenSigns
  /-- They are no comments. -/
  first_ne : first ≠ '#'
  /-- Both tokens are read as literals, or none is. -/
  literal : AlikeAt (Behind after) stringLiteral.run (first :: old) (first :: new)
  /-- Both tokens are read as groups, or none is. -/
  group : AlikeAt (Behind after) bracketGroup.run (first :: old) (first :: new)
  /-- Inside of groups they are pieces. -/
  inside : ∀ w ws, w ∈ closers →
    AlikeAt (Behind after) (closeGroups groupLeaf.run (w :: ws)) (first :: old) (first :: new)

/-- Items in front of the same text are pieces of groups. -/
theorem Behind.alikeAt_inside {w : Char} {ws : List Char} (hw : w ∈ closers)
    (hs : Chain groupItem s r) (ht : Chain groupItem t u) (h : Behind after r u) :
    AlikeAt (Behind after) (closeGroups groupLeaf.run (w :: ws)) s t := by
  obtain ⟨f, hf, hs⟩ := closeGroups_of_chain hw hs
  obtain ⟨g, hg, ht⟩ := closeGroups_of_chain hw ht
  exact (h.alikeAt_closeGroups groupLeaf (w :: ws)).prepend (hf.trans hg.symm) (hs ws) (ht ws)

namespace Swap

variable (x : Swap)

/-- The texts are made of the same tokens up to the place. -/
def Ahead (s t : List Char) : Prop :=
  Aligned (x.first :: x.old) (x.first :: x.new) s t

/-- The place is ahead, or the texts are the same behind it. -/
def Steady (s t : List Char) : Prop :=
  x.Ahead s t ∨ Behind x.after s t

variable {x}

/-- Texts that are the same behind the place are steady. -/
theorem steady_of_behind (h : Behind x.after s t) : x.Steady s t := .inr h

/-- Up to the place a pattern has to be looked at only where the texts are aligned. -/
theorem alike_of_ahead (h : ∀ s t, x.Ahead s t → AlikeAt x.Steady p.run s t) :
    Alike x.Steady x.Steady p.run := by
  rintro s t (hst | hst)
  · exact h s t hst
  · exact (hst.alikeAt p).mono fun _ _ => steady_of_behind

/-- A token that both texts start with has a first character. -/
theorem exists_cons_of_token (hconsumes : p.consumes = true) (hs : p.run s = some (f, r))
    (ht : p.run t = some (f, u)) : ∃ c a b, s = c :: a ∧ t = c :: b := by
  have hs' := lossless_run p _ _ _ hs
  have ht' := lossless_run p _ _ _ ht
  cases htext : f.text with
  | nil =>
    rw [htext, List.nil_append] at hs'
    have hlt := length_lt_of_consumes hconsumes hs
    rw [hs'] at hlt
    exact absurd hlt (Nat.lt_irrefl _)
  | cons c y =>
    rw [htext] at hs' ht'
    exact ⟨c, y ++ r, y ++ u, hs', ht'⟩

/-- The place is here, or both texts start with the same character, and behind it the place is ahead
unless a literal or a comment starts with it. -/
theorem ahead_cases (h : x.Ahead s t) : (s = x.first :: x.old ∧ t = x.first :: x.new) ∨
    ∃ c u v, s = c :: u ∧ t = c :: v ∧ (c ∈ '#' :: quotes ∨ x.Ahead u v) := by
  cases h with
  | here => exact .inl ⟨rfl, rfl⟩
  | literal hs ht _ =>
    obtain ⟨c, a, b, rfl, rfl⟩ := exists_cons_of_token rfl hs ht
    obtain ⟨q, hq, _, heq⟩ := exists_quote_of_stringLiteral hs
    obtain ⟨rfl, -⟩ := List.cons.inj heq
    exact .inr ⟨c, a, b, rfl, rfl, .inl (List.mem_cons_of_mem _ hq)⟩
  | comment hs ht _ =>
    obtain ⟨c, a, b, rfl, rfl⟩ := exists_cons_of_token rfl hs ht
    obtain ⟨_, heq⟩ := exists_sign_of_comment hs
    obtain ⟨rfl, -⟩ := List.cons.inj heq
    exact .inr ⟨'#', a, b, rfl, rfl, .inl List.mem_cons_self⟩
  | @char c s t token rest => exact .inr ⟨c, s, t, rfl, rfl, .inr rest⟩

/-- Both texts start with the same character, and behind it the place is ahead, unless a token starts
with it. -/
theorem exists_cons_of_ahead (h : x.Ahead s t) : ∃ c u v, s = c :: u ∧ t = c :: v ∧
    (c ∈ x.first :: '#' :: quotes ∨ x.Ahead u v) := by
  rcases ahead_cases h with ⟨rfl, rfl⟩ | ⟨c, u, v, rfl, rfl, hrest⟩
  · exact ⟨x.first, x.old, x.new, rfl, rfl, .inl List.mem_cons_self⟩
  · exact ⟨c, u, v, rfl, rfl, hrest.imp_left (List.mem_cons_of_mem _)⟩

/-- Where less is left than behind the start of the token, the texts are the same. -/
theorem eq_of_steady (hle : s.length ≤ x.old.length) (h : x.Steady s t) : s = t := by
  rcases h with h | h
  · obtain ⟨a, rfl, -⟩ := Aligned.exists_text h
    simp only [List.length_append, List.length_cons] at hle
    omega
  · exact h.1

/-- Where more is left than behind the token, the place is ahead. -/
theorem ahead_of_steady (hlt : x.after.length < s.length) (h : x.Steady s t) : x.Ahead s t := by
  refine h.resolve_right fun h => ?_
  have := h.2.length_le
  omega

/-- At the place in the one text is the place in the other one. -/
theorem eq_new_of_steady (hle : x.after.length ≤ x.old.length)
    (h : x.Steady (x.first :: x.old) t) : t = x.first :: x.new := by
  obtain ⟨a, ha, rfl⟩ := Aligned.exists_text (ahead_of_steady (Nat.lt_succ_of_le hle) h)
  obtain rfl : a = [] := List.self_eq_append_left.mp ha
  rfl

/-! ## Characters -/

/-- Characters that start a token are not taken. -/
theorem alike_one {accepts : Char → Bool} (h : ∀ c ∈ x.first :: '#' :: quotes, accepts c = false) :
    Alike x.Steady x.Steady (one accepts : Pattern Rule).run := by
  refine alike_of_ahead fun s t hst => ?_
  obtain ⟨c, u, v, rfl, rfl, hc | hrest⟩ := exists_cons_of_ahead hst
  · exact .one fun haccepts => by simp [h c hc] at haccepts
  · exact .one fun _ => .inl hrest

/-- What holds of the characters that start tokens holds of those that start them here. -/
theorem forall_signs {P : Char → Prop} (h : ∀ c ∈ tokenSigns, P c) :
    ∀ c ∈ x.first :: '#' :: quotes, P c := by
  have htokens : '#' :: quotes ⊆ tokenSigns := by decide
  intro c hc
  rcases List.mem_cons.mp hc with rfl | hc
  · exact h _ x.first_mem
  · exact h c (htokens hc)

/-- A character that starts no token at the place is read alike. -/
theorem alike_chr {c : Char} (hc : c ∉ x.first :: '#' :: quotes) :
    Alike x.Steady x.Steady (chr c : Pattern Rule).run := by
  refine alike_one fun d hd => ?_
  have hne : d ≠ c := fun e => hc (e ▸ hd)
  simpa using hne

/-- A character that starts none of the possible tokens starts none at this place. -/
theorem not_mem_signs (hc : c ∉ tokenSigns) : c ∉ x.first :: '#' :: quotes :=
  fun hmem => forall_signs (x := x) (P := (· ≠ c)) (fun _ hd e => hc (e ▸ hd)) c hmem rfl

/-- A character that starts no token. -/
theorem alike_mark (hc : c ∉ tokenSigns) : Alike x.Steady x.Steady (chr c : Pattern Rule).run :=
  alike_chr (not_mem_signs hc)

/-- A word of such characters is read alike. -/
theorem alike_word {cs : List Char} (h : ∀ c ∈ cs, c ∉ tokenSigns) :
    Alike x.Steady x.Steady (word cs : Pattern Rule).run := by
  induction cs with
  | nil => exact .empty fun _ _ => id
  | cons c cs ih =>
    obtain ⟨hc, hcs⟩ := List.forall_mem_cons.mp h
    cases cs with
    | nil => exact alike_mark hc
    | cons d cs => exact (alike_mark hc).seq (ih hcs)

/-! ## Strings and comments -/

/-- A string literal is read alike, whether it is the token at the place or stands before or behind
it. -/
theorem alike_stringLiteral : Alike x.Steady x.Steady stringLiteral.run := by
  refine alike_of_ahead fun s t hst => ?_
  cases hst with
  | here => exact x.literal.mono fun _ _ => steady_of_behind
  | literal hs ht rest => exact .matched _ _ _ _ hs ht rfl (.inl rest)
  | comment hs ht _ =>
    obtain ⟨u, rfl⟩ := exists_sign_of_comment hs
    obtain ⟨v, rfl⟩ := exists_sign_of_comment ht
    have hnone := run_of_peek_false (peek_stringLiteral (c := '#') (by decide))
    exact .refused (hnone u) (hnone v)
  | @char c s t token _ =>
    rw [List.mem_cons, not_or] at token
    have hnone := run_of_peek_false (peek_stringLiteral token.2)
    exact .refused (hnone s) (hnone t)

/-- A character that is no number sign is seen to start no comment. -/
theorem peek_comment {c : Char} (hc : c ≠ '#') : comment.peek c = some false := by
  simp [comment, chr, peek, hc]

/-- A comment is read alike, for it is no token at the place. -/
theorem alike_comment : Alike x.Steady x.Steady comment.run := by
  have hquote : ∀ c ∈ quotes, c ≠ '#' := by decide
  refine alike_of_ahead fun s t hst => ?_
  cases hst with
  | here =>
    have hnone := run_of_peek_false (peek_comment x.first_ne)
    exact .refused (hnone x.old) (hnone x.new)
  | literal hs ht _ =>
    obtain ⟨q, hq, u, rfl⟩ := exists_quote_of_stringLiteral hs
    obtain ⟨q', hq', v, rfl⟩ := exists_quote_of_stringLiteral ht
    exact .refused (run_of_peek_false (peek_comment (hquote q hq)) u)
      (run_of_peek_false (peek_comment (hquote q' hq')) v)
  | comment hs ht rest => exact .matched _ _ _ _ hs ht rfl (.inl rest)
  | @char c s t token _ =>
    rw [List.mem_cons, not_or] at token
    have hnone := run_of_peek_false (peek_comment token.1)
    exact .refused (hnone s) (hnone t)

/-! ## Groups in brackets -/

/-- The groups that pieces make up. The induction is on the tokens up to the place, where groups are
open. -/
theorem alikeAt_closeGroups {ws : List Char} (hws : ∀ w ∈ ws, w ∈ closers) (hst : x.Ahead s t) :
    AlikeAt x.Steady (closeGroups groupLeaf.run ws) s t := by
  have hclosed : ∀ t, closeGroups groupLeaf.run [] t = some (.nil, t) := fun t => by
    rw [closeGroups]
  unfold Ahead at hst
  induction hst generalizing ws with
  | here =>
    -- Without an open group nothing is read; in a group the swap tells how its tokens are read.
    cases ws with
    | nil => exact .matched .nil _ .nil _ (hclosed _) (hclosed _) rfl (.inl .here)
    | cons w ws =>
      exact (x.inside w ws (hws w List.mem_cons_self)).mono fun _ _ => steady_of_behind
  | literal hs ht rest ih =>
    cases ws with
    | nil => exact .matched .nil _ .nil _ (hclosed _) (hclosed _) rfl (.inl (.literal hs ht rest))
    | cons w ws =>
      -- A literal is an item of the innermost group in both texts.
      have hw := hws w List.mem_cons_self
      exact (ih hws).prepend rfl (closeGroups_of_item hw (run_groupItem.mpr (.inl hs)))
        (closeGroups_of_item hw (run_groupItem.mpr (.inl ht)))
  | comment hs ht rest ih =>
    cases ws with
    | nil => exact .matched .nil _ .nil _ (hclosed _) (hclosed _) rfl (.inl (.comment hs ht rest))
    | cons w ws =>
      have hw := hws w List.mem_cons_self
      exact (ih hws).prepend rfl (closeGroups_of_item hw (run_groupItem.mpr (.inr (.inr (.inl hs)))))
        (closeGroups_of_item hw (run_groupItem.mpr (.inr (.inr (.inl ht)))))
  | @char c s t token rest ih =>
    cases ws with
    | nil => exact .matched .nil _ .nil _ (hclosed _) (hclosed _) rfl (.inl (.char token rest))
    | cons w ws =>
      obtain ⟨hw, hws'⟩ := List.forall_mem_cons.mp hws
      by_cases hne : c = w
      · -- The bracket closes the innermost group in both texts.
        subst hne
        exact (ih hws').prepend (f := .char c .nil) rfl (closeGroups_close _ c ws s)
          (closeGroups_close _ c ws t)
      cases hopen : closer? c with
      | some v =>
        exact (ih (List.forall_mem_cons.mpr ⟨(closer?_eq_some hopen).2, hws⟩)).prepend
          (f := .char c .nil) rfl (closeGroups_open hne hopen s) (closeGroups_open hne hopen t)
      | none =>
        by_cases hbracket : c ∈ brackets
        · -- A bracket that closes no open group is no piece.
          have hnone : groupLeaf.peek c = some false :=
            (by decide : ∀ c ∈ brackets, groupLeaf.peek c = some false) c hbracket
          exact .refused (closeGroups_of_none hne hopen (run_of_peek_false hnone s))
            (closeGroups_of_none hne hopen (run_of_peek_false hnone t))
        · have hplain : c ∉ '#' :: brackets ++ quotes := by
            simp only [List.mem_cons, not_or] at token
            simp [token, hbracket]
          exact (ih hws).prepend (f := .char c .nil) rfl
            (closeGroups_of_item hw (run_plainItem hplain s).1)
            (closeGroups_of_item hw (run_plainItem hplain t).1)

/-- A group in brackets is read alike, whether it is the token at the place, holds it, or stands
before or behind it. -/
theorem alike_bracketGroup : Alike x.Steady x.Steady bracketGroup.run := by
  have hrefused : ∀ c ∈ '#' :: quotes, bracketGroup.peek c = some false := by decide
  refine alike_of_ahead fun s t hst => ?_
  cases hst with
  | here => exact x.group.mono fun _ _ => steady_of_behind
  | literal hs ht _ =>
    -- A literal opens no group, in either text.
    obtain ⟨q, hq, u, rfl⟩ := exists_quote_of_stringLiteral hs
    obtain ⟨q', hq', v, rfl⟩ := exists_quote_of_stringLiteral ht
    exact .refused (run_of_peek_false (hrefused q (List.mem_cons_of_mem _ hq)) u)
      (run_of_peek_false (hrefused q' (List.mem_cons_of_mem _ hq')) v)
  | comment hs ht _ =>
    obtain ⟨u, rfl⟩ := exists_sign_of_comment hs
    obtain ⟨v, rfl⟩ := exists_sign_of_comment ht
    have hnone := run_of_peek_false (hrefused '#' List.mem_cons_self)
    exact .refused (hnone u) (hnone v)
  | @char c s t _ rest =>
    cases hopen : closer? c with
    | none =>
      have hnone : ∀ s, bracketGroup.run (c :: s) = none := fun s => by
        rw [bracketGroup, run, Grammar.group, hopen]
      exact .refused (hnone s) (hnone t)
    | some w =>
      have hinner := alikeAt_closeGroups
        (List.forall_mem_singleton.mpr (closer?_eq_some hopen).2) rest
      exact hinner.prepend (f := .char c .nil) rfl (by rw [bracketGroup, run, Grammar.group, hopen]; rfl)
        (by rw [bracketGroup, run, Grammar.group, hopen]; rfl)

/-! ## Blanks and expressions -/

/-- A line break is read alike. -/
theorem alike_lineBreak : Alike x.Steady x.Steady lineBreak.run :=
  (alike_mark (by decide)).orElse ((alike_word (by decide)).orElse (alike_mark (by decide)))

/-- A continuation is read alike. -/
theorem alike_continuation : Alike x.Steady x.Steady continuation.run :=
  (alike_mark (by decide)).seq alike_lineBreak

section Spaceless

variable (hx : x.first ≠ ' ')

include hx

/-- A blank within a line is read alike; the space at the place is one in both texts. -/
theorem alike_inlineSpace : Alike x.Steady x.Steady inlineSpace.run := by
  have hblank : Alike x.Steady x.Steady (oneOf [' ', '\t'] : Pattern Rule).run := by
    refine alike_one fun c hc => ?_
    rcases List.mem_cons.mp hc with rfl | hc
    · have htab : x.first ≠ '\t' := (by decide : ∀ c ∈ tokenSigns, c ≠ '\t') _ x.first_mem
      simp [hx, htab]
    · exact (by decide : ∀ c ∈ '#' :: quotes, [' ', '\t'].contains c = false) c hc
  exact hblank.orElse alike_continuation

/-- Blanks within a line are read alike. -/
theorem alike_inlineSpaces : Alike x.Steady x.Steady (star inlineSpace).run :=
  (alike_inlineSpace hx).star rfl

/-- Blanks between items are read alike. -/
theorem alike_gaps : Alike x.Steady x.Steady (star gap).run :=
  ((alike_inlineSpace hx).orElse (alike_lineBreak.orElse alike_comment)).star rfl

/-- A piece of an expression is read alike; the tokens at the place are pieces. -/
theorem alike_exprPiece (ends : List Char) : Alike x.Steady x.Steady (exprPiece ends).run := by
  refine alike_stringLiteral.orElse (alike_bracketGroup.orElse (alike_one fun c hc => ?_))
  have hmem : c ∈ notPlain ends := by
    refine subset_notPlain (by decide : '(' :: '#' :: quotes ⊆ '#' :: brackets ++ quotes) ?_
    refine (List.mem_cons.mp (forall_signs (P := (· ∈ tokenSigns)) (fun _ => id) c hc)).resolve_left ?_
    rintro rfl
    rcases List.mem_cons.mp hc with hc | hc
    · exact hx hc.symm
    · simp [quotes] at hc
  show (!(notPlain ends).contains c) = false
  rw [List.contains_iff_mem.mpr hmem]
  rfl

/-- An expression is read alike. -/
theorem alike_expr (ends : List Char) : Alike x.Steady x.Steady (plus (exprPiece ends)).run :=
  (alike_exprPiece hx ends).seq ((alike_exprPiece hx ends).star rfl)

end Spaceless

/-! ## Words -/

/-- A step fails on both texts, or matches the same on both. -/
inductive CopiedAt (Q : List Char → List Char → Prop) (step : Step Rule) (s t : List Char) :
    Prop where
  | refused (hs : step s = none) (ht : step t = none)
  | matched (f : Forest Rule) (r u : List Char) (hs : step s = some (f, r))
    (ht : step t = some (f, u)) (hrest : Q r u)

/-- The pattern takes the same of both texts. -/
def Copies (x : Swap) (p : Pattern Rule) : Prop :=
  ∀ s t, x.Steady s t → CopiedAt x.Steady p.run s t

/-- What takes the same of both texts is read alike. -/
theorem Copies.alike (hp : x.Copies p) : Alike x.Steady x.Steady p.run := by
  intro s t hst
  cases hp s t hst with
  | refused hs ht => exact .refused hs ht
  | matched f r u hs ht hrest => exact .matched f r f u hs ht rfl hrest

/-- A character that starts none of the tokens is taken from both texts. -/
theorem copies_one {accepts : Char → Bool} (h : ∀ c ∈ tokenSigns, accepts c = false) :
    x.Copies (one accepts) := by
  intro s t hst
  rcases hst with hst | ⟨rfl, hs⟩
  · obtain ⟨c, u, v, rfl, rfl, hc | hrest⟩ := exists_cons_of_ahead hst
    · have hnone := forall_signs (P := fun c => accepts c = false) h c hc
      exact .refused (by simp [run, hnone]) (by simp [run, hnone])
    · cases haccepts : accepts c with
      | false => exact .refused (by simp [run, haccepts]) (by simp [run, haccepts])
      | true =>
        exact .matched (.char c .nil) u v (by simp [run, haccepts]) (by simp [run, haccepts])
          (.inl hrest)
  · cases hrun : (one accepts : Pattern Rule).run s with
    | none => exact .refused hrun hrun
    | some m => exact .matched m.1 m.2 m.2 hrun hrun (.inr ⟨rfl, (suffix_of_run hrun).trans hs⟩)

/-- A sequence takes the same of both texts if both of its parts do. -/
theorem Copies.seq (hp : x.Copies p) (hq : x.Copies q) : x.Copies (seq p q) := by
  intro s t hst
  cases hp s t hst with
  | refused hs ht => exact .refused (by rw [run, hs]) (by rw [run, ht])
  | matched f r u hs ht hrest =>
    cases hq r u hrest with
    | refused hr hu =>
      exact .refused (by simp only [run, hs, hr, Option.map_none])
        (by simp only [run, ht, hu, Option.map_none])
    | matched g r' u' hr hu hrest' =>
      exact .matched (f ++ g) r' u' (run_seq.mpr ⟨f, r, g, hs, hr, rfl⟩)
        (run_seq.mpr ⟨f, u, g, ht, hu, rfl⟩) hrest'

/-- A repetition takes the same of both texts if each of its matches does. -/
theorem Copies.star (hp : x.Copies p) (hconsumes : p.consumes = true) : x.Copies (star p) := by
  have hstar : ∀ {s f r}, p.run s = some (f, r) → (Pattern.star p).run s =
      ((Pattern.star p).run r).map fun m => (f ++ m.1, m.2) := run_star_of_some hconsumes
  intro s
  induction s using rest_induction hconsumes with
  | step s ih =>
    intro t hst
    cases hp s t hst with
    | refused hs ht =>
      exact .matched .nil s t (by rw [run_star, many_of_none hs])
        (by rw [run_star, many_of_none ht]) hst
    | matched f r u hs ht hrest =>
      cases ih hs u hrest with
      | refused hr _ => simp [run_star] at hr
      | matched g r' u' hr hu hrest' =>
        exact .matched (f ++ g) r' u' (by rw [hstar hs, hr]; rfl) (by rw [hstar ht, hu]; rfl) hrest'

/-- A pattern takes the same of both texts as a node too. -/
theorem Copies.node {rule : Rule} (hp : x.Copies p) : x.Copies (node rule p) := by
  intro s t hst
  cases hp s t hst with
  | refused hs ht => exact .refused (by rw [run, hs]; rfl) (by rw [run, ht]; rfl)
  | matched f r u hs ht hrest =>
    exact .matched _ r u (run_node.mpr ⟨f, hs, rfl⟩) (run_node.mpr ⟨f, ht, rfl⟩) hrest

/-- A name is taken from both texts. -/
theorem copies_identifier : x.Copies identifier :=
  ((copies_one (by decide)).seq ((copies_one (by decide)).star rfl)).node

/-- The name of the function is read alike: it is the same word. -/
theorem alike_functionName : Alike x.Steady x.Steady functionName.run :=
  copies_identifier.node.alike

/-- The word for a coroutine is read alike. -/
theorem alike_asyncKeyword : Alike x.Steady x.Steady asyncKeyword.run := by
  have hone : ∀ c ∉ tokenSigns, x.Copies (chr c) := by
    intro c hc
    refine copies_one fun d hd => ?_
    have hne : d ≠ c := fun e => hc (e ▸ hd)
    simpa using hne
  exact ((hone _ (by decide)).seq ((hone _ (by decide)).seq ((hone _ (by decide)).seq
    ((hone _ (by decide)).seq (hone _ (by decide)))))).node.alike

/-! ## The lead -/

section Spaceless

variable (hx : x.first ≠ ' ')

include hx

/-- Blank lines are read alike. -/
theorem alike_blankLines : Alike x.Steady x.Steady (star blankLine).run :=
  ((alike_inlineSpaces hx).seq ((alike_comment.optional fun _ _ => id).seq alike_lineBreak)).star rfl

/-- A decorator is read alike. -/
theorem alike_decorator : Alike x.Steady x.Steady decorator.run := by
  have hpiece := alike_continuation.orElse (alike_exprPiece hx lineEnds)
  have hexpr : Alike x.Steady x.Steady decoratorExpr.run :=
    (hpiece.seq (hpiece.star rfl)).node (by decide)
  exact ((alike_inlineSpaces hx).seq ((alike_mark (by decide)).seq ((alike_inlineSpaces hx).seq (hexpr.seq
    ((alike_comment.optional fun _ _ => id).seq alike_lineBreak))))).node (by decide)

/-- A decorator with the blank lines behind it is read alike. -/
theorem alike_decoratorGroup : Alike x.Steady x.Steady decoratorGroup.run :=
  (alike_decorator hx).seq (alike_blankLines hx)

/-- A lead is read alike. -/
theorem alike_leadPattern : Alike x.Steady x.Steady leadPattern.run :=
  (alike_blankLines hx).seq ((alike_decoratorGroup hx).star rfl)

/-! ## The header -/

/-- A sign and an expression behind it. -/
theorem alike_marked {c : Char} {rule : Rule} {ends : List Char} (hc : c ∉ tokenSigns)
    (hrule : rule ∉ wordRules) : Alike x.Steady x.Steady
      (seq (chr c) (seq (star gap) (node rule (plus (exprPiece ends))))).run :=
  (alike_mark hc).seq
    ((alike_gaps hx).seq ((alike_expr hx ends).node hrule))

/-- An annotation is read alike where it may be left out. -/
theorem alike_optionalHint : Alike x.Steady x.Steady (optional hint).run :=
  (alike_marked hx (by decide) (by decide)).optional fun _ _ => id

/-- A parameter is read alike. -/
theorem alike_parameter : Alike x.Steady x.Steady parameter.run := by
  have hdefault : Alike x.Steady x.Steady (optional defaultValue).run :=
    (alike_marked hx (by decide) (by decide)).optional fun _ _ => id
  exact (copies_identifier.alike.seq ((alike_gaps hx).seq ((alike_optionalHint hx).seq
    ((alike_gaps hx).seq hdefault)))).node (by decide)

/-- A parameter for any number of arguments, behind its stars. -/
theorem alike_variadic {stars : Pattern Rule} {rule : Rule}
    (hstars : Alike x.Steady x.Steady stars.run) (hrule : rule ∉ wordRules) :
    Alike x.Steady x.Steady (node rule <| seq stars <|
      seq (star gap) <| seq identifier <| seq (star gap) (optional hint)).run :=
  (hstars.seq ((alike_gaps hx).seq
    (copies_identifier.alike.seq ((alike_gaps hx).seq (alike_optionalHint hx))))).node hrule

/-- An item of the list is read alike. -/
theorem alike_parameterItem : Alike x.Steady x.Steady parameterItem.run := by
  exact (alike_variadic hx (alike_word (by decide)) (by decide)).orElse
    ((alike_variadic hx (alike_mark (by decide)) (by decide)).orElse
      (((alike_mark (by decide)).node (by decide)).orElse
        (((alike_mark (by decide)).node (by decide)).orElse (alike_parameter hx))))

/-- The items of the list are read alike. -/
theorem alike_parameterList : Alike x.Steady x.Steady parameterList.run := by
  have hcomma : Alike x.Steady x.Steady (chr ',' : Pattern Rule).run :=
    alike_mark (by decide)
  have hitem := alike_parameterItem hx
  have hnext := (alike_gaps hx).seq (hcomma.seq ((alike_gaps hx).seq hitem))
  exact hitem.seq ((hnext.star rfl).seq (((alike_gaps hx).seq hcomma).optional fun _ _ => id))

/-- A list of parameters, if the tokens are no groups. -/
theorem alike_parameters (hgroup : x.first ≠ '(') : Alike x.Steady x.Steady parameters.run := by
  have hopen : '(' ∉ x.first :: '#' :: quotes := by
    simp [Ne.symm hgroup, quotes]
  exact ((alike_chr hopen).seq ((alike_gaps hx).seq
    ((((alike_parameterList hx).seq (alike_gaps hx)).optional fun _ _ => id).seq
      (alike_mark (by decide))))).node (by decide)

/-- What stands in a header before the list is read alike. -/
theorem alike_headerStart : Alike x.Steady x.Steady headerStart.run := by
  have hspaces := (alike_inlineSpace hx).seq (alike_inlineSpaces hx)
  have hasync : Alike x.Steady x.Steady (optional (seq asyncKeyword (plus inlineSpace))).run :=
    (alike_asyncKeyword.seq hspaces).optional fun _ _ => id
  exact (alike_inlineSpaces hx).seq (hasync.seq ((alike_word (by decide)).seq (hspaces.seq
    (alike_functionName.seq (alike_inlineSpaces hx)))))

/-- What stands in a header behind the list is read alike. -/
theorem alike_headerEnd : Alike x.Steady x.Steady headerEnd.run := by
  have hhint : Alike x.Steady x.Steady returnHint.run :=
    ((alike_word (by decide)).seq ((alike_inlineSpaces hx).seq
      ((alike_expr hx _).node (by decide)))).node (by decide)
  exact (alike_inlineSpaces hx).seq ((hhint.optional fun _ _ => id).seq
    ((alike_inlineSpaces hx).seq (alike_mark (by decide))))

/-- A header, if the tokens are no groups. -/
theorem alike_defHeader (hgroup : x.first ≠ '(') : Alike x.Steady x.Steady defHeader.run := by
  intro s t hst
  have hheader : Alike x.Steady x.Steady
      (node .defHeader (seq headerStart (seq parameters headerEnd))).run :=
    ((alike_headerStart hx).seq ((alike_parameters hx hgroup).seq (alike_headerEnd hx))).node
      (by decide)
  cases hheader s t hst with
  | refused hs ht =>
    exact .refused ((run_defHeader s).trans hs) ((run_defHeader t).trans ht)
  | matched f r g u hs ht houtline hrest =>
    exact .matched f r g u ((run_defHeader s).trans hs) ((run_defHeader t).trans ht) houtline hrest

end Spaceless

end Swap

end UdfBridge.Source
