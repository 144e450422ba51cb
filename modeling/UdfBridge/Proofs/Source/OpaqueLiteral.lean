import UdfBridge.Proofs.Source.DecoratorLines
import UdfBridge.Proofs.Source.SameDefinition
import UdfBridge.Proofs.Source.Scanned
import UdfBridge.Proofs.Source.Swapped

/-!
# What a string literal contains

A string literal in one pair of quotes is a token whatever its content, as long as the content has
neither quotes nor backslashes nor line ends (`Replacement`). So before the body it may be replaced by
any such content, and the text is the same definition, with the same lines
(`literal_content_opaque`).

Literals in front of it stay what they are. Three quotes that nothing closes are the one thing to be
looked at: a string that starts there would have to be closed behind the replaced literal, where both
texts are the same (`Replacement.tripleQuoted_open`).
-/

namespace UdfBridge.Source

open Grammar
open Grammar.Pattern
open Text (Position trimEndChars)

variable {q c : Char} {s t r u : List Char} {f g : Forest Rule}

/-- Where a node starts and ends, and the lines that are counted for it as a decorator. -/
def linesOf (n : Node Rule) : Nat × Nat × List Nat :=
  (n.start.line, n.stop.line, linesOfDecorator n)

/-- A string literal in one pair of quotes, with a content that takes the place of its own. -/
structure Replacement where
  /-- The quote on either side. -/
  quote : Char
  /-- The content. -/
  old : List Char
  /-- The other content. -/
  new : List Char
  /-- What stands behind the literal. -/
  after : List Char
  quote_mem : quote ∈ quotes
  /-- The literal is one of the grammar. -/
  matched : ∃ f, (quoted quote).run (quote :: (old ++ quote :: after)) = some (f, after)
  /-- The literal stands on one line. -/
  line : '\n' ∉ old
  /-- The other content has no characters that count in a string. -/
  plain : ∀ c ∈ new, c ∉ '\\' :: lineEnds ++ quotes
  /-- No other quote follows. -/
  behind : ∀ c ∈ after.head?, c ∉ quotes

namespace Replacement

variable (x : Replacement)

/-- The text from the literal on. -/
def oldText : List Char := x.quote :: (x.old ++ x.quote :: x.after)

/-- The text from the literal with the other content on. -/
def newText : List Char := x.quote :: (x.new ++ x.quote :: x.after)

/-! ## The literal -/

/-- The pieces of the literal end with its closing quote. -/
theorem many_old : ∃ g, many (piece (plainQuoted x.quote)).run (x.old ++ x.quote :: x.after) =
    (g, x.quote :: x.after) := by
  obtain ⟨f, hf⟩ := x.matched
  obtain ⟨t, g, heq, hcontent, -⟩ := run_quoted.mp hf
  obtain ⟨-, rfl⟩ := List.cons.inj heq
  exact ⟨g, hcontent⟩

/-- No quote is a backslash. -/
theorem quote_ne_escape (hq : q ∈ quotes) : q ≠ '\\' := by
  rintro rfl
  simp [quotes] at hq

/-- Behind another character than a backslash nothing is escaped. -/
theorem not_escapes_cons (hc : c ≠ '\\') (s : List Char) : ¬ Escapes (c :: s) := by
  rintro ⟨d, u, h⟩
  exact hc (List.cons.inj h).1

/-- A character of the other content is a piece by itself. -/
theorem run_new {plain : Pattern Rule} (hc : c ∈ x.new)
    (hplain : ∀ s, plain.run (c :: s) = some (.char c .nil, s)) (s : List Char) :
    (piece plain).run (c :: s) = some (.char c .nil, s) := by
  have hne : c ≠ '\\' := fun e => x.plain c hc (by simp [e])
  rw [run_piece (not_escapes_cons hne s), hplain]

/-- The pieces of the other content end at the quote that closes the literal. -/
theorem many_new : ∃ g, many (piece (plainQuoted x.quote)).run (x.new ++ x.quote :: x.after) =
    (g, x.quote :: x.after) := by
  refine ⟨_, Prod.ext rfl ?_⟩
  have hstop : (piece (plainQuoted x.quote)).run (x.quote :: x.after) = none := by
    rw [run_piece (not_escapes_cons (quote_ne_escape x.quote_mem) _),
      run_plainQuoted List.mem_cons_self]
  rw [many_rest_of_chars fun c hc s => x.run_new hc (fun s => ?_) s, many_of_none hstop]
  have hquote : c ≠ x.quote := fun e => x.plain c hc (by simp [e, x.quote_mem])
  have hend : c ∉ lineEnds := fun hmem => x.plain c hc (by simp [hmem])
  simp [plainQuoted, noneOf, run, hquote, hend]

/-- Neither literal starts with three quotes. -/
theorem not_prefix_of_many {t : List Char}
    (h : ∃ g, many (piece (plainQuoted x.quote)).run (t ++ x.quote :: x.after) =
      (g, x.quote :: x.after)) : ¬ [q, q, q] <+: x.quote :: (t ++ x.quote :: x.after) := by
  intro hpre
  obtain ⟨g, hg⟩ := h
  obtain ⟨rfl, hpre⟩ := List.cons_prefix_cons.mp hpre
  cases t with
  | nil =>
    obtain ⟨-, v, hv⟩ := List.cons_prefix_cons.mp hpre
    exact x.behind x.quote (by rw [← hv]; rfl) x.quote_mem
  | cons d t =>
    -- The first piece would be the quote, which is none.
    obtain ⟨rfl, -⟩ := List.cons_prefix_cons.mp hpre
    rw [List.cons_append, many_of_none, Prod.mk.injEq] at hg
    · have hlength := congrArg List.length hg.2
      simp only [List.length_cons, List.length_append] at hlength
      omega
    · rw [run_piece (not_escapes_cons (quote_ne_escape x.quote_mem) _),
        run_plainQuoted List.mem_cons_self]

/-- What does not start with three quotes is a literal if the pattern of one pair matches it. -/
theorem stringLiteral_of_quoted (hq : q ∈ quotes) {m : Forest Rule × List Char}
    (h : (quoted q).run s = some m) (hnot : ∀ q, ¬ [q, q, q] <+: s) :
    stringLiteral.run s = some m := by
  have htriple : ∀ q, (tripleQuoted q).run s = none := by
    intro q
    rw [Option.eq_none_iff_forall_ne_some]
    rintro ⟨f, r⟩ hrun
    obtain ⟨t, -, rfl, -⟩ := run_tripleQuoted.mp hrun
    exact hnot q (List.prefix_append _ _)
  refine run_orElse.mpr (.inr ⟨htriple _, run_orElse.mpr (.inr ⟨htriple _, ?_⟩)⟩)
  rcases List.mem_pair.mp hq with rfl | rfl
  · exact run_orElse.mpr (.inl h)
  · obtain ⟨t, -, rfl, -⟩ := run_quoted.mp h
    exact run_orElse.mpr (.inr ⟨run_of_peek_false (by decide) _, h⟩)

/-- A literal with either content ends where the other one ends. -/
theorem exists_literal {t : List Char}
    (h : ∃ g, many (piece (plainQuoted x.quote)).run (t ++ x.quote :: x.after) =
      (g, x.quote :: x.after)) :
    ∃ f, stringLiteral.run (x.quote :: (t ++ x.quote :: x.after)) = some (f, x.after) := by
  obtain ⟨g, hg⟩ := h
  exact ⟨_, stringLiteral_of_quoted x.quote_mem (run_quoted.mpr ⟨_, g, rfl, hg, rfl⟩)
    fun _ => x.not_prefix_of_many ⟨g, hg⟩⟩

/-- A quote is no space, no parenthesis and no sign of a comment. -/
theorem quote_ne : x.quote ≠ ' ' ∧ x.quote ≠ '(' ∧ x.quote ≠ '#' :=
  (by decide : ∀ q ∈ quotes, q ≠ ' ' ∧ q ≠ '(' ∧ q ≠ '#') _ x.quote_mem

/-- The two literals as tokens. -/
def swap : Swap where
  first := x.quote
  old := x.old ++ x.quote :: x.after
  new := x.new ++ x.quote :: x.after
  after := x.after
  first_mem := (by decide : ∀ q ∈ quotes, q ∈ tokenSigns) _ x.quote_mem
  first_ne := x.quote_ne.2.2
  literal := by
    obtain ⟨f, hs⟩ := x.exists_literal x.many_old
    obtain ⟨g, ht⟩ := x.exists_literal x.many_new
    exact .matched f _ g _ hs ht ((outline_run rfl hs).trans (outline_run rfl ht).symm)
      ⟨rfl, List.suffix_refl _⟩
  group := by
    have hnone : ∀ u, bracketGroup.run (x.quote :: u) = none :=
      run_of_peek_false ((by decide : ∀ c ∈ quotes, bracketGroup.peek c = some false) _ x.quote_mem)
    exact .refused (hnone _) (hnone _)
  inside := by
    intro w ws hw
    obtain ⟨f, hs⟩ := x.exists_literal x.many_old
    obtain ⟨g, ht⟩ := x.exists_literal x.many_new
    exact Behind.alikeAt_inside hw (.of_run (run_groupItem.mpr (.inl hs)))
      (.of_run (run_groupItem.mpr (.inl ht))) ⟨rfl, List.suffix_refl _⟩

/-! ## Three quotes in front of it -/

/-- Three quotes `q` close a string between three quotes that is open where the text starts. -/
def Closes (q : Char) (s : List Char) : Prop :=
  ∃ g r, many (piece (plainTriple q)).run s = (g, [q, q, q] ++ r)

/-- Three quotes at the start of a text close a string. -/
theorem closes_of_prefix (hq : q ∈ quotes) (h : [q, q, q] <+: s) : Closes q s := by
  obtain ⟨r, rfl⟩ := h
  exact ⟨.nil, r, many_of_none (run_piece_quotes hq r)⟩

/-- A piece of a string in front of a text does not change whether the text closes it. -/
theorem closes_of_piece (h : (piece (plainTriple q)).run s = some (f, r)) :
    Closes q s ↔ Closes q r := by
  unfold Closes
  rw [many_of_some h (length_lt_of_consumes (p := piece (plainTriple q)) rfl h)]
  constructor
  · rintro ⟨g, u, heq⟩
    exact ⟨_, u, Prod.ext rfl (Prod.mk.inj heq).2⟩
  · rintro ⟨g, u, heq⟩
    exact ⟨_, u, by rw [heq]⟩

/-- An escaped character in front of a text does not change whether the text closes a string. -/
theorem closes_escape {d : Char} : Closes q ('\\' :: d :: s) ↔ Closes q s :=
  closes_of_piece (run_piece_escape _ d s)

/-- Neither does another character that no three quotes start with. -/
theorem closes_char (hc : c ≠ '\\') (hnot : ¬ [q, q, q] <+: c :: s) :
    Closes q (c :: s) ↔ Closes q s := by
  refine closes_of_piece (f := .char c .nil) ?_
  rw [run_piece (not_escapes_cons hc s), run_plainTriple, if_pos (run_word_eq_none.mpr hnot)]

/-- A text that closes a string does so behind one more character, if this is no backslash. -/
theorem closes_cons (hq : q ∈ quotes) (hc : c ≠ '\\') (h : Closes q s) : Closes q (c :: s) := by
  by_cases hpre : [q, q, q] <+: c :: s
  · exact closes_of_prefix hq hpre
  · exact (closes_char hc hpre).mpr h

/-- A string that is closed behind the literal is closed there, or in the literal. -/
theorem closes_of_many (hq : q ∈ quotes) {t : List Char} {g : Forest Rule}
    (h : many (piece (plainQuoted x.quote)).run t = (g, x.quote :: x.after))
    (hclose : Closes q x.after) : Closes q t := by
  fun_induction many (piece (plainQuoted x.quote)).run t generalizing g with
  | case1 t _ =>
    obtain ⟨-, rfl⟩ := Prod.mk.inj h
    exact closes_cons hq (quote_ne_escape x.quote_mem) hclose
  | case2 t f r hrun _ g' t' hm ih =>
    obtain ⟨-, rfl⟩ := Prod.mk.inj h
    have hrest := ih hm
    rcases run_piece_cases hrun with ⟨d, rfl, -⟩ | ⟨hescape, hplain⟩
    · exact closes_escape.mpr hrest
    · obtain ⟨c, -, rfl, -⟩ := run_one.mp hplain
      refine closes_cons hq ?_ hrest
      -- Something follows, so a backslash would escape it.
      rintro rfl
      cases r with
      | nil => simp [many_of_none (show (piece (plainQuoted x.quote)).run [] = none from rfl)] at hm
      | cons d r => exact hescape ⟨d, r, rfl⟩
  | case3 t f r hrun hlt =>
    exact absurd (length_lt_of_consumes (p := piece (plainQuoted x.quote)) rfl hrun) hlt

/-- The other content closes nothing. -/
theorem closes_after (h : Closes q (x.new ++ x.quote :: x.after)) (hq : q ∈ quotes) :
    Closes q x.after := by
  have hplain := x.plain
  generalize x.new = t at h hplain
  induction t with
  | nil =>
    refine (closes_char (quote_ne_escape x.quote_mem) fun hpre => ?_).mp h
    obtain ⟨-, hpre⟩ := List.cons_prefix_cons.mp hpre
    obtain ⟨v, hv⟩ := hpre
    exact x.behind q (by rw [← hv]; rfl) hq
  | cons c t ih =>
    obtain ⟨hc, ht⟩ := List.forall_mem_cons.mp hplain
    refine ih ((closes_char (fun e => hc (by simp [e])) fun hpre => ?_).mp h) ht
    obtain ⟨rfl, -⟩ := List.cons_prefix_cons.mp hpre
    exact hc (List.mem_append_right _ hq)

/-- A string that is closed where the literal has the other content is closed where it has its own.
The induction is on the length of what stands before the literal, which escapes may take in twos. -/
theorem closes_old (hq : q ∈ quotes) {y : List Char} (hy : ∀ c ∈ y.getLast?, c ∉ quotes)
    (h : Closes q (y ++ x.newText)) : Closes q (y ++ x.oldText) := by
  -- Behind the literal both texts are the same, so quotes that close there do so in both.
  have hcontent (h : Closes q (x.new ++ x.quote :: x.after)) :
      Closes q (x.old ++ x.quote :: x.after) :=
    x.closes_of_many hq x.many_old.choose_spec (x.closes_after h hq)
  induction hlen : y.length using Nat.strong_induction_on generalizing y with
  | _ n ih =>
    cases y with
    | nil =>
      -- The quote of the literal starts no three quotes, so what closes stands behind it.
      have hnew := (closes_char (quote_ne_escape x.quote_mem)
        (x.not_prefix_of_many x.many_new)).mp h
      exact closes_cons hq (quote_ne_escape x.quote_mem) (hcontent hnew)
    | cons c y =>
      by_cases hc : c = '\\'
      · subst hc
        cases y with
        | nil => exact closes_escape.mpr (hcontent (closes_escape.mp h))
        | cons d y =>
          have hlt : y.length < n := by
            simp only [List.length_cons] at hlen
            omega
          -- The escaped character is passed over, whatever it is.
          refine closes_escape.mpr (ih y.length hlt ?_ (closes_escape.mp h) rfl)
          cases y with
          | nil => simp
          | cons e y => exact hy
      · have hlast : ∀ e ∈ y.getLast?, e ∉ quotes := by
          cases y with
          | nil => simp
          | cons e y => exact hy
        by_cases hpre : [q, q, q] <+: c :: (y ++ x.oldText)
        · exact closes_of_prefix hq hpre
        refine closes_cons hq hc (ih y.length (by simp [← hlen]) hlast
          ((closes_char hc fun hpre' => hpre ?_).mp h) rfl)
        -- The last character before the literal is no quote, so they stand before it in both texts.
        match y, hy with
        | [], hy =>
          obtain ⟨rfl, -⟩ := List.cons_prefix_cons.mp hpre'
          exact absurd hq (hy q rfl)
        | [d], hy =>
          obtain ⟨-, hpre'⟩ := List.cons_prefix_cons.mp hpre'
          obtain ⟨rfl, -⟩ := List.cons_prefix_cons.mp hpre'
          exact absurd hq (hy q rfl)
        | d :: e :: z, _ =>
          have hshort : [q, q, q] <+: c :: d :: e :: z :=
            List.prefix_of_prefix_length_le hpre' (List.prefix_append (c :: d :: e :: z) _) (by simp)
          exact hshort.trans (List.prefix_append (c :: d :: e :: z) _)

/-- Three quotes that nothing closes in front of the literal are closed with neither content. -/
theorem tripleQuoted_open (hq : q ∈ quotes) {y : List Char} (hy : ∀ c ∈ y.getLast?, c ∉ quotes)
    (h : (tripleQuoted q).run (y ++ x.oldText) = none) :
    (tripleQuoted q).run (y ++ x.newText) = none := by
  rw [Option.eq_none_iff_forall_ne_some] at h ⊢
  rintro ⟨f, r⟩ hrun
  obtain ⟨t, g, heq, hcontent, -⟩ := run_tripleQuoted.mp hrun
  match y, hy with
  | [], _ => exact x.not_prefix_of_many x.many_new ⟨t, heq.symm⟩
  | [a], hy =>
    obtain ⟨rfl, -⟩ := List.cons.inj heq
    exact hy a rfl hq
  | [a, b], hy =>
    obtain ⟨-, heq⟩ := List.cons.inj heq
    obtain ⟨rfl, -⟩ := List.cons.inj heq
    exact hy b rfl hq
  | a :: b :: c :: z, hy =>
    simp only [List.cons_append, List.nil_append, List.cons.injEq] at heq
    obtain ⟨rfl, rfl, rfl, rfl⟩ := heq
    have hz : ∀ c ∈ z.getLast?, c ∉ quotes := by
      cases z with
      | nil => simp
      | cons d z => exact hy
    obtain ⟨g', r', hold⟩ := x.closes_old hq hz ⟨g, r, hcontent⟩
    exact h _ (run_tripleQuoted.mpr ⟨_, g', rfl, hold, rfl⟩)

/-- A scan up to the literal makes the texts steady. -/
theorem steady_of_scan {y : List Char} {ls : List (List Char)}
    (h : Scan (y ++ x.oldText) x.oldText ls) (hy : ∀ c ∈ y.getLast?, c ∉ quotes) :
    x.swap.Steady (y ++ x.oldText) (y ++ x.newText) := by
  have hquote : x.quote ∉ lineEnds := not_mem_lineEnds x.quote_mem
  refine .inl (aligned_of_scan (x := y) h (fun c hc => ?_) (List.cons_ne_nil _ _)
    (fun b hb q hq => x.tripleQuoted_open hq ?_) rfl)
  · rw [← Option.some.inj hc]
    exact hquote
  · obtain ⟨a, hab, -⟩ := hb.exists_text
    rw [← List.append_assoc] at hab
    rw [List.append_cancel_right hab] at hy
    cases hb : b.getLast? with
    | none => simp
    | some d => rwa [List.getLast?_append, hb] at hy

/-! ## Lines -/

/-- What stands before the last character that is not white space is not trimmed. -/
theorem trimEndChars_append {a : List Char} (hc : Text.isBlank c = false) (b : List Char) :
    trimEndChars ((a ++ [c]) ++ b) = (a ++ [c]) ++ trimEndChars b := by
  unfold trimEndChars
  rw [List.reverse_append, List.dropWhile_append]
  split
  · rename_i hnil
    rw [List.isEmpty_iff] at hnil
    simp [hnil, hc]
  · simp

/-- What is matched of steady texts has the same number of lines, trimmed or not. -/
theorem count_of_steady {a b : List Char} (hst : x.swap.Steady (a ++ r) (b ++ u))
    (hru : x.swap.Steady r u) : b.count '\n' = a.count '\n' ∧
      (trimEndChars b).count '\n' = (trimEndChars a).count '\n' := by
  have hquote : Text.isBlank x.quote = false ∧ x.quote ≠ '\n' :=
    (by decide : ∀ q ∈ quotes, Text.isBlank q = false ∧ q ≠ '\n') _ x.quote_mem
  have hold : '\n' ∉ x.quote :: (x.old ++ [x.quote]) := by
    simp [x.line, hquote.2.symm]
  have hnew : '\n' ∉ x.quote :: (x.new ++ [x.quote]) := by
    have : '\n' ∉ x.new := fun hmem => x.plain _ hmem (by decide)
    simp [this, hquote.2.symm]
  suffices a = b ∨ ∃ y z, a = y ++ (x.quote :: (x.old ++ [x.quote])) ++ z ∧
      b = y ++ (x.quote :: (x.new ++ [x.quote])) ++ z by
    rcases this with rfl | ⟨y, z, rfl, rfl⟩
    · exact ⟨rfl, rfl⟩
    · have htrim : ∀ w, trimEndChars (y ++ (x.quote :: (w ++ [x.quote])) ++ z) =
          y ++ (x.quote :: (w ++ [x.quote])) ++ trimEndChars z := by
        -- The literal ends with its quote, which is no blank, so trimming stays behind it.
        intro w
        rw [← List.cons_append, ← List.append_assoc]
        exact trimEndChars_append hquote.1 z
      rw [htrim, htrim]
      simp only [List.count_append, List.count_eq_zero.mpr hold, List.count_eq_zero.mpr hnew,
        and_self]
  rcases hst with hst | ⟨hst, hbehind⟩
  · obtain ⟨y, hy, hy'⟩ := Aligned.exists_text hst
    rcases hru with hru | ⟨rfl, z, hz⟩
    · obtain ⟨z, rfl, rfl⟩ := Aligned.exists_text hru
      rw [← List.append_assoc] at hy hy'
      rw [← List.append_cancel_right hy] at hy'
      exact .inl (List.append_cancel_right (List.append_cancel_right hy')).symm
    · have hafter : x.after = z ++ r := hz.symm
      right
      refine ⟨y, z, ?_, ?_⟩
      · rw [← List.append_left_inj r, hy]
        simp [swap, hafter]
      · rw [← List.append_left_inj r, hy']
        simp [swap, hafter]
  · rcases hru with hru | ⟨rfl, -⟩
    · obtain ⟨z, rfl, -⟩ := Aligned.exists_text hru
      have hlength := hbehind.length_le
      simp only [List.length_append, List.length_cons, swap] at hlength
      omega
    · exact .inl (List.append_cancel_right hst)

/-- Matches that start on one line in steady texts take up the same lines, if the texts are steady
behind them. -/
theorem linesOf_of_steady {p p' : Position} (hline : p'.line = p.line) {rule : Rule}
    (hst : x.swap.Steady (f.text ++ r) (g.text ++ u)) (hru : x.swap.Steady r u) :
    linesOf ⟨rule, p', g⟩ = linesOf ⟨rule, p, f⟩ := by
  obtain ⟨hcount, htrim⟩ := x.count_of_steady hst hru
  simp only [linesOf, Node.stop, Node.chars, Position.line_advance, linesOfDecorator, hline, hcount,
    htrim]

/-- A decorator and blank lines come before the other decorators. -/
theorem nodes_decoratorGroups {b : Forest Rule} {v : List Char}
    (hs : decorator.run s = some (.node .decorator f .nil, r))
    (hr : (star blankLine).run r = some (b, v)) (p : Position) :
    (many decoratorGroup.run s).1.nodes p = ⟨.decorator, p, f⟩ ::
      (many decoratorGroup.run v).1.nodes ((p.advance f.text).advance b.text) := by
  have hgroup : decoratorGroup.run s = some (.node .decorator f .nil ++ b, v) :=
    run_seq.mpr ⟨_, r, b, hs, hr, rfl⟩
  have hblank : b.topRules = [] :=
    List.subset_nil.mp (topRules_run (star blankLine) _ _ _ hr)
  rw [many_of_some hgroup (length_lt_of_consumes (p := decoratorGroup) rfl hgroup)]
  simp only [Forest.node_append, Forest.nil_append, Forest.nodes, Forest.nodes_append,
    nodes_eq_nil hblank, List.nil_append]

/-- The decorators stand on the same lines. The induction is on the rests that they leave. -/
theorem linesOf_decoratorGroups {p p' : Position} (hline : p'.line = p.line)
    (hst : x.swap.Steady s t) : ((many decoratorGroup.run t).1.nodes p').map linesOf =
      ((many decoratorGroup.run s).1.nodes p).map linesOf := by
  induction s using rest_induction (p := decoratorGroup) rfl generalizing t p p' with
  | step s ih =>
    cases Swap.alike_decorator x.quote_ne.1 s t hst with
    | refused hs ht =>
      rw [many_of_none (decoratorGroup_of_decorator hs),
        many_of_none (decoratorGroup_of_decorator ht)]
      rfl
    | matched f r g u hs ht _ hru =>
      obtain ⟨f, -, rfl⟩ := run_node.mp hs
      obtain ⟨g, -, rfl⟩ := run_node.mp ht
      cases Swap.alike_blankLines x.quote_ne.1 r u hru with
      | refused hr _ => simp [run_star] at hr
      | matched a r' b u' hr hu _ hrest =>
        have hs' : s = f.text ++ r := by simpa [Forest.text] using lossless_run _ _ _ _ hs
        have ht' : t = g.text ++ u := by simpa [Forest.text] using lossless_run _ _ _ _ ht
        have hr' := lossless_run _ _ _ _ hr
        have hu' := lossless_run _ _ _ _ hu
        have hgroup : linesOf ⟨.decorator, p', g⟩ = linesOf ⟨.decorator, p, f⟩ :=
          x.linesOf_of_steady hline (hs' ▸ ht' ▸ hst) hru
        have hbehind : ((p'.advance g.text).advance b.text).line =
            ((p.advance f.text).advance a.text).line := by
          simp only [Position.line_advance, hline, (x.count_of_steady (hs' ▸ ht' ▸ hst) hru).1,
            (x.count_of_steady (hr' ▸ hu' ▸ hru) hrest).1]
        rw [nodes_decoratorGroups hs hr, nodes_decoratorGroups ht hu, List.map_cons, List.map_cons,
          hgroup, ih (run_seq.mpr ⟨_, r, a, hs, hr, rfl⟩) hbehind hrest]

/-! ## Definitions -/

/-- The lead of a definition is blank lines and decorators. -/
theorem nodes_lead {a : Forest Rule} {v : List Char} (hs : leadPattern.run s = some (f, r))
    (hblank : (star blankLine).run s = some (a, v)) (p : Position) :
    f.nodes p = (many decoratorGroup.run v).1.nodes (p.advance a.text) := by
  obtain ⟨a', v', g, hblank', hgroups, rfl⟩ := run_seq.mp hs
  obtain ⟨rfl, rfl⟩ := Prod.mk.inj (Option.some.inj (hblank.symm.trans hblank'))
  have hrules : a.topRules = [] :=
    List.subset_nil.mp (topRules_run (star blankLine) _ _ _ hblank)
  rw [run_star, Option.some.injEq] at hgroups
  rw [Forest.nodes_append, nodes_eq_nil hrules, List.nil_append, hgroups]

/-- The decorators of two steady texts stand on the same lines. -/
theorem linesOf_lead (hst : x.swap.Steady s t) (hs : leadPattern.run s = some (f, r))
    (ht : leadPattern.run t = some (g, u)) (p : Position) :
    (g.nodes p).map linesOf = (f.nodes p).map linesOf := by
  cases Swap.alike_blankLines x.quote_ne.1 s t hst with
  | refused hs _ => simp [run_star] at hs
  | matched a v b w ha hb _ hrest =>
    rw [nodes_lead hs ha, nodes_lead ht hb]
    refine x.linesOf_decoratorGroups ?_ hrest
    rw [Position.line_advance, Position.line_advance]
    rw [lossless_run _ _ _ _ ha, lossless_run _ _ _ _ hb] at hst
    rw [(x.count_of_steady hst hrest).1]

/-- Steady texts are read alike. -/
theorem reading_of_steady (hst : x.swap.Steady s t) : reading s = reading t := by
  unfold reading
  cases Swap.alike_leadPattern x.quote_ne.1 s t hst with
  | refused hs ht => rw [hs, ht]
  | matched f r g u hs ht houtline hrest =>
    rw [lossless_run _ _ _ _ hs, lossless_run _ _ _ _ ht] at hst
    have hlines := (x.count_of_steady hst hrest).1
    simp only [hs, ht, Option.bind_some]
    cases Swap.alike_defHeader x.quote_ne.1 x.quote_ne.2.1 r u hrest with
    | refused hr hu => rw [hr, hu]; rfl
    | matched f' r' g' u' hr hu houtline' _ =>
      rw [hr, hu, Option.map_some, Option.map_some, houtline, houtline', hlines]

/-- The lines of the decorators of two divisions. -/
theorem linesOf_division (hst : x.swap.Steady s t) (d : Division s) (e : Division t) :
    (decoratorNodes e.root).map linesOf = (decoratorNodes d.root).map linesOf := by
  rw [e.decoratorNodes_root, d.decoratorNodes_root]
  exact x.linesOf_lead hst d.run_lead e.run_lead .origin

end Replacement

/-- **What a string literal contains is no structure.** Where a scan of a definition comes to a string
literal in one pair of quotes, which stands on one line and next to no other quote, any other content
without quotes, backslashes and line ends gives a definition with as many decorators on the same
lines, and with the same name, word for a coroutine, line of the header, and names and kinds of
parameters. So it is for the definition as it stands and without its margin. -/
theorem literal_content_opaque (x : Replacement) {before : List Char} {ls : List (List Char)}
    (hscan : Scan (before ++ x.oldText) x.oldText ls) (hbefore : ∀ c ∈ before.getLast?, c ∉ quotes)
    {n : Node Rule} (h : root (.ofList (before ++ x.oldText)) = .ok n) :
    ∃ m, root (.ofList (before ++ x.newText)) = .ok m ∧
      (decoratorNodes m).map linesOf = (decoratorNodes n).map linesOf ∧
      (∃ f g, FunctionDef.ofSource (.ofList (before ++ x.oldText)) = .ok f ∧
        FunctionDef.ofSource (.ofList (before ++ x.newText)) = .ok g ∧
        SameDefinition f g ∧ g.defLine = f.defLine ∧ g.decoratorLines = f.decoratorLines) ∧
      ∃ f g, FunctionDef.parse (.ofList (before ++ x.oldText)) = .ok f ∧
        FunctionDef.parse (.ofList (before ++ x.newText)) = .ok g ∧
        SameDefinition f g ∧ g.defLine = f.defLine := by
  have hread : reading (String.ofList (before ++ x.oldText)).toList =
      reading (String.ofList (before ++ x.newText)).toList := by
    rw [String.toList_ofList, String.toList_ofList]
    exact x.reading_of_steady (x.steady_of_scan hscan hbefore)
  obtain ⟨d, rfl⟩ := root_eq_ok_iff.mp h
  obtain ⟨f, hf⟩ := (FunctionDef.exists_ofSource_iff _).mpr ⟨_, h⟩
  obtain ⟨g, hg, hfg, hline⟩ := FunctionDef.ofSource_of_reading hread hf
  obtain ⟨m, hm⟩ := (FunctionDef.exists_ofSource_iff _).mp ⟨g, hg⟩
  obtain ⟨e, rfl⟩ := root_eq_ok_iff.mp hm
  have hlines : (decoratorNodes e.root).map linesOf = (decoratorNodes d.root).map linesOf :=
    x.linesOf_division (by simpa using x.steady_of_scan hscan hbefore) d e
  obtain ⟨f', hf'⟩ := (FunctionDef.exists_parse_iff_root _).mpr ⟨_, h⟩
  obtain ⟨g', hg', hfg', hline'⟩ := FunctionDef.parse_of_reading hread hf'
  refine ⟨e.root, hm, hlines, ⟨f, g, hf, hg, hfg, hline, ?_⟩, f', g', hf', hg', hfg', hline'⟩
  -- The lines are counted for one decorator after the other.
  have hdecorators := congrArg (List.flatMap fun l => l.2.2) hlines
  rw [List.flatMap_map, List.flatMap_map] at hdecorators
  rw [(FunctionDef.ofLead_of_ofSource hg e).2.2, (FunctionDef.ofLead_of_ofSource hf d).2.2,
    ← e.decoratorNodes_root, ← d.decoratorNodes_root]
  exact hdecorators

/-- A literal in a default value, with brackets, a comma, a sign of a comment and the start of a header
for its content. -/
def bracketsInLiteral : Replacement where
  quote := '\''
  old := "y".toList
  new := "), #@def g(:".toList
  after := "], *, z=1) -> \"s\": pass".toList
  quote_mem := by decide
  matched := by
    obtain ⟨⟨f, t⟩, hrun, rfl⟩ := Option.map_eq_some_iff.mp
      (by decide +kernel : restOf (quoted '\'').run "'y'], *, z=1) -> \"s\": pass".toList =
        some "], *, z=1) -> \"s\": pass".toList)
    exact ⟨f, hrun⟩
  line := by decide
  plain := by decide
  behind := by
    rintro c ⟨rfl⟩
    decide

/-- A definition whose default value has a literal in brackets, behind a comment with a quote and behind
literals of a decorator and of an annotation. -/
def literalInBrackets : String :=
  "@a(\"b'\")\ndef f(x: 'int' = [ #'\n'y'], *, z=1) -> \"s\": pass"

/-- The same definition with brackets in that literal. -/
def bracketsInBrackets : String :=
  "@a(\"b'\")\ndef f(x: 'int' = [ #'\n'), #@def g(:'], *, z=1) -> \"s\": pass"

/-- The two definitions are the same but for that literal. -/
theorem literal_content_opaque_of_brackets :
    ∃ n m, root literalInBrackets = .ok n ∧ root bracketsInBrackets = .ok m ∧
      (decoratorNodes m).map linesOf = (decoratorNodes n).map linesOf ∧
      (∃ f g, FunctionDef.ofSource literalInBrackets = .ok f ∧
        FunctionDef.ofSource bracketsInBrackets = .ok g ∧
        SameDefinition f g ∧ g.defLine = f.defLine ∧ g.decoratorLines = f.decoratorLines) ∧
      ∃ f g, FunctionDef.parse literalInBrackets = .ok f ∧
        FunctionDef.parse bracketsInBrackets = .ok g ∧ SameDefinition f g ∧ g.defLine = f.defLine := by
  obtain ⟨ls₁, hdecorator⟩ := exists_scan_of_literal (by decide +kernel :
    restOf stringLiteral.run ("\"b'\")\ndef f(x: 'int' = [ #'\n".toList ++ bracketsInLiteral.oldText) =
      some (")\ndef f(x: ".toList ++ ("'int' = [ #'\n".toList ++ bracketsInLiteral.oldText)))
  obtain ⟨ls₂, hhint⟩ := exists_scan_of_literal (by decide +kernel :
    restOf stringLiteral.run ("'int' = [ #'\n".toList ++ bracketsInLiteral.oldText) =
      some (" = [ ".toList ++ ("#'\n".toList ++ bracketsInLiteral.oldText)))
  obtain ⟨ls₃, hcomment⟩ := exists_scan_of_comment (by decide +kernel :
    restOf comment.run ("#'\n".toList ++ bracketsInLiteral.oldText) =
      some ("\n".toList ++ bracketsInLiteral.oldText))
  have hplain (a : List Char) (s : List Char) (h : ∀ c ∈ a, c ∉ '#' :: quotes) : Scan (a ++ s) s [] :=
    .of_forall h s
  have hscan : Scan ("@a(\"b'\")\ndef f(x: 'int' = [ #'\n".toList ++ bracketsInLiteral.oldText)
      bracketsInLiteral.oldText _ :=
    (hplain "@a(".toList _ (by decide)).trans <| hdecorator.trans <|
      (hplain ")\ndef f(x: ".toList _ (by decide)).trans <| hhint.trans <|
      (hplain " = [ ".toList _ (by decide)).trans <| hcomment.trans <|
      hplain "\n".toList _ (by decide)
  have hlast : ∀ c ∈ "@a(\"b'\")\ndef f(x: 'int' = [ #'\n".toList.getLast?, c ∉ quotes := by
    rintro c ⟨rfl⟩
    decide
  have hroot := eq_ok_of_isSome (x := root literalInBrackets) (by decide +kernel)
  obtain ⟨m, hm, hlines, hsource, hparse⟩ :=
    literal_content_opaque bracketsInLiteral hscan hlast hroot
  exact ⟨_, m, hroot, hm, hlines, hsource, hparse⟩

end UdfBridge.Source
