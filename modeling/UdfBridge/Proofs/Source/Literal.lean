import UdfBridge.Proofs.Source.Follow

/-!
# Comments and strings with other line endings

A comment ends where its line ends, and a string between three quotes takes line ends like any other
character. In a string between two quotes only an escaped character may end a line, and what is
escaped is one character: of a line ending of two characters, the carriage return. The line feed
behind it then ends the string before its closing quote. So a string literal fails exactly if it
goes over the end of a line in one pair of quotes (`follows_stringLiteral`).
-/

namespace UdfBridge.Source

open Grammar
open Grammar.Pattern
open Text (crlf)

variable {q c : Char} {s r u : List Char} {f : Forest Rule}

/-! ## Line breaks and comments -/

/-- A line break follows, for either ending is one. -/
theorem follows_lineBreak : Follows lineBreak Never := by
  intro s hs
  cases s with
  | nil => exact .of_none rfl rfl
  | cons c s =>
    by_cases hc : c = '\n'
    · subst hc
      exact .of_some (f := .char '\n' .nil) rfl rfl (.char (by decide) (.nil s))
        not_hasContinued_nil
    · have hreturn : c ≠ '\r' := fun e => hs (e ▸ List.mem_cons_self)
      have hnone : ∀ t, lineBreak.run (c :: t) = none := by
        intro t
        simp [lineBreak, word, chr, run, hc, hreturn]
      exact .of_none (hnone s) (by rw [Text.crlf_cons hc, hnone])

/-- The pattern does the same to every text and to the text with other line endings. -/
def Agrees (p : Pattern Rule) : Prop :=
  ∀ s, '\r' ∉ s → p.run (crlf s) = (p.run s).map crlfMatch

/-- A pattern that follows without coming to a continued literal does the same to both texts. -/
theorem Follows.agrees {p : Pattern Rule} (hp : Follows p Never) : Agrees p := by
  intro s hs
  cases hrun : p.run s with
  | none => rw [(hp s hs).1 hrun]; rfl
  | some m =>
    obtain ⟨ls, -, h | h⟩ := (hp s hs).2 m.1 m.2 hrun
    · exact h.2
    · exact h.2.elim

/-- A sequence does the same to both texts if both of its parts do. -/
theorem Agrees.seq {p q : Pattern Rule} (hp : Agrees p) (hq : Agrees q) : Agrees (seq p q) := by
  intro s hs
  rw [run, run, hp s hs]
  cases hrun : p.run s with
  | none => rfl
  | some m =>
    obtain ⟨f, t⟩ := m
    have hcrlf := hq t (not_mem_rest hs hrun)
    simp only [Option.map_some, crlfMatch] at hcrlf ⊢
    rw [hcrlf]
    cases q.run t with
    | none => rfl
    | some m => simp [crlfMatch]

/-- A repetition agrees on a text with what it does with the text with other line endings, if it
does so from match to match. -/
theorem agrees_star {p : Pattern Rule} (hconsumes : p.consumes = true)
    (hp : ∀ s, '\r' ∉ s → (p.run s = none → p.run (crlf s) = none) ∧
      ∀ f r, p.run s = some (f, r) → many p.run (crlf s) =
        (f.crlf ++ (many p.run (crlf r)).1, (many p.run (crlf r)).2)) : Agrees (star p) := by
  intro s hs
  rw [run, run, Option.map_some, Option.some.injEq]
  fun_induction many p.run s with
  | case1 s hnone => exact many_of_none ((hp s hs).1 hnone)
  | case2 s f r hrun hlt g t hm ih =>
    rw [hm] at ih
    rw [(hp s hs).2 f r hrun, ih (not_mem_rest hs hrun)]
    simp [crlfMatch]
  | case3 s f r hrun hlt => exact absurd (length_lt_of_consumes hconsumes hrun) hlt

/-- A repetition of a pattern that agrees. -/
theorem Agrees.star {p : Pattern Rule} (hp : Agrees p) (hconsumes : p.consumes = true) :
    Agrees (star p) := by
  refine agrees_star hconsumes fun s hs => ⟨fun hrun => by rw [hp s hs, hrun]; rfl, ?_⟩
  intro f r hrun
  have hcrlf : p.run (crlf s) = some (f.crlf, crlf r) := by rw [hp s hs, hrun]; rfl
  exact many_of_some hcrlf (length_crlf_lt hconsumes hrun)

/-- A pattern for one character that accepts no line end. -/
theorem agrees_one {accepts : Char → Bool} (h : ∀ c ∈ lineEnds, accepts c = false) :
    Agrees (one accepts) :=
  fun _ _ => run_one_crlf (.inr h)

/-- A character that is no line end is read alike in both texts. -/
theorem agrees_chr (hc : c ∉ lineEnds) : Agrees (chr c) := by
  refine agrees_one fun d hd => ?_
  have hne : d ≠ c := fun e => hc (e ▸ hd)
  simpa using hne

/-- A comment is read alike in both texts, for it ends before the line end. -/
theorem agrees_comment : Agrees comment :=
  (agrees_chr (by decide)).seq ((agrees_one (by decide)).star rfl)

/-- A comment follows. -/
theorem follows_comment : Follows comment Never := by
  intro s hs
  have hcrlf := agrees_comment s hs
  cases hrun : comment.run s with
  | none => exact .of_none hrun (by rw [hcrlf, hrun]; rfl)
  | some m =>
    exact .of_some hrun (by rw [hcrlf, hrun]; rfl) (.comment hrun (.nil m.2)) not_hasContinued_nil

/-! ## Pieces of strings -/

variable {plain : Pattern Rule}

/-- One piece of a string: a backslash with the character that it escapes, or a match of `plain`. -/
def piece (plain : Pattern Rule) : Pattern Rule :=
  orElse (seq (chr '\\') any) plain

/-- The text starts with an escaped character. -/
def Escapes (s : List Char) : Prop :=
  ∃ d u, s = '\\' :: d :: u

/-- A backslash is read with the character behind it. -/
theorem run_piece_escape (plain : Pattern Rule) (d : Char) (u : List Char) :
    (piece plain).run ('\\' :: d :: u) = some (.char '\\' (.char d .nil), u) := rfl

/-- Where no character is escaped, a piece is a plain one. -/
theorem run_piece (h : ¬ Escapes s) : (piece plain).run s = plain.run s := by
  have hescape : (seq (chr '\\') any : Pattern Rule).run s = none := by
    cases s with
    | nil => rfl
    | cons c t =>
      by_cases hc : c = '\\'
      · subst hc
        cases t with
        | nil => rfl
        | cons d u => exact absurd ⟨d, u, rfl⟩ h
      · simp [chr, run, hc]
  rw [piece, run, hescape]

/-- What is escaped may be the first character of a line ending. -/
theorem escapes_crlf : Escapes (crlf s) ↔ Escapes s := by
  constructor
  · rintro ⟨d, u, h⟩
    cases s with
    | nil => simp at h
    | cons c t =>
      by_cases hc : c = '\n'
      · simp [hc] at h
      · rw [Text.crlf_cons hc, List.cons.injEq] at h
        obtain ⟨rfl, ht⟩ := h
        cases t with
        | nil => simp at ht
        | cons d t => exact ⟨d, t, rfl⟩
  · rintro ⟨d, u, rfl⟩
    rw [Text.crlf_cons (by decide)]
    by_cases hd : d = '\n'
    · exact ⟨'\r', '\n' :: crlf u, by rw [hd, Text.crlf_feed]⟩
    · exact ⟨d, crlf u, by rw [Text.crlf_cons hd]⟩

/-- An escaped character that is no line feed stays as it is. -/
theorem many_piece_escape {d : Char} (hd : d ≠ '\n') (u : List Char) :
    many (piece plain).run (crlf ('\\' :: d :: u)) =
      (.char '\\' (.char d (many (piece plain).run (crlf u)).1),
        (many (piece plain).run (crlf u)).2) := by
  rw [Text.crlf_cons (by decide), Text.crlf_cons hd,
    many_of_some (run_piece_escape plain d (crlf u)) (by simp only [List.length_cons]; omega)]
  rfl

/-- Of an escaped line ending only the carriage return is escaped. -/
theorem many_piece_escape_feed (u : List Char) :
    many (piece plain).run (crlf ('\\' :: '\n' :: u)) =
      (.char '\\' (.char '\r' (many (piece plain).run ('\n' :: crlf u)).1),
        (many (piece plain).run ('\n' :: crlf u)).2) := by
  rw [Text.crlf_cons (by decide), Text.crlf_feed,
    many_of_some (run_piece_escape plain '\r' ('\n' :: crlf u)) (by simp)]
  rfl

/-- A quote is no line end. -/
theorem not_mem_lineEnds (hq : q ∈ quotes) : q ∉ lineEnds := by
  rcases List.mem_pair.mp hq with rfl | rfl <;> decide

/-! ## Strings between three quotes -/

/-- Three quotes are read alike in both texts. -/
theorem agrees_quotes (hq : q ∈ quotes) : Agrees (word [q, q, q]) := by
  have hone : Agrees (chr q) := agrees_chr (not_mem_lineEnds hq)
  exact hone.seq (hone.seq hone)

/-- A character that no three quotes start with. -/
def plainTriple (q : Char) : Pattern Rule :=
  seq (notAhead (word [q, q, q])) any

/-- A character is a plain one between three quotes if no three quotes start with it. -/
theorem run_plainTriple (q c : Char) (u : List Char) :
    (plainTriple q).run (c :: u) =
      if (word [q, q, q] : Pattern Rule).run (c :: u) = none then some (.char c .nil, u)
      else none := by
  unfold plainTriple
  rw [run, run]
  cases (word [q, q, q] : Pattern Rule).run (c :: u) <;> rfl

/-- Line ends are taken one by one. -/
theorem run_plainTriple_end (hq : q ∈ quotes) (hc : c ∈ lineEnds) (u : List Char) :
    (plainTriple q).run (c :: u) = some (.char c .nil, u) := by
  have hne : c ≠ q := fun e => not_mem_lineEnds hq (e ▸ hc)
  rw [run_plainTriple, if_pos]
  simp [word, chr, run, hne]

/-- A line end is read by itself between three quotes. -/
theorem many_tripleContent_end (hq : q ∈ quotes) (hc : c ∈ lineEnds) (u : List Char) :
    many (piece (plainTriple q)).run (c :: u) =
      (.char c (many (piece (plainTriple q)).run u).1, (many (piece (plainTriple q)).run u).2) := by
  have hescape : ¬ Escapes (c :: u) := by
    rintro ⟨d, u', h⟩
    obtain ⟨rfl, -⟩ := List.cons.inj h
    simp [lineEnds] at hc
  have hrun := (run_piece hescape).trans (run_plainTriple_end hq hc u)
  rw [many_of_some hrun (by simp)]
  rfl

/-- Other characters are taken from both texts. -/
theorem run_plainTriple_crlf (hq : q ∈ quotes) (hs : '\r' ∉ s) (hhead : s.head? ≠ some '\n') :
    (plainTriple q).run (crlf s) = ((plainTriple q).run s).map crlfMatch := by
  cases s with
  | nil => rfl
  | cons c t =>
    have hc : c ≠ '\n' := fun e => hhead (by rw [e]; rfl)
    have hword := agrees_quotes hq (c :: t) hs
    rw [Text.crlf_cons hc] at hword ⊢
    rw [run_plainTriple, run_plainTriple, hword]
    cases (word [q, q, q] : Pattern Rule).run (c :: t) with
    | none => simp [crlfMatch, Forest.crlf, hc]
    | some m => rfl

/-- What stands between three quotes is read alike in both texts. -/
theorem agrees_star_tripleContent (hq : q ∈ quotes) : Agrees (star (piece (plainTriple q))) := by
  -- The pieces are an escape with its character, and a plain character.
  refine agrees_star rfl fun s hs => ?_
  by_cases hescape : Escapes s
  · obtain ⟨d, u, rfl⟩ := hescape
    refine ⟨fun hrun => by simp [run_piece_escape] at hrun, fun f r hrun => ?_⟩
    rw [run_piece_escape, Option.some.injEq, Prod.mk.injEq] at hrun
    obtain ⟨rfl, rfl⟩ := hrun
    by_cases hd : d = '\n'
    · -- Two pieces stand for the one: the escaped carriage return and the line feed.
      rw [hd, many_piece_escape_feed, many_tripleContent_end hq (by decide)]
      rfl
    · rw [many_piece_escape hd]
      simp [Forest.crlf, hd]
  rw [run_piece hescape]
  by_cases hhead : s.head? = some '\n'
  · -- Outside of escapes both characters of a line ending are pieces of their own.
    obtain ⟨t, rfl⟩ := List.head?_eq_some_iff.mp hhead
    rw [run_plainTriple_end hq (by decide)]
    refine ⟨fun hrun => by simp at hrun, fun f r hrun => ?_⟩
    obtain ⟨rfl, rfl⟩ := Prod.mk.inj (Option.some.inj hrun)
    rw [Text.crlf_feed, many_tripleContent_end hq (by decide),
      many_tripleContent_end hq (by decide)]
    rfl
  · have hcrlf := (run_piece (mt escapes_crlf.mp hescape)).trans (run_plainTriple_crlf hq hs hhead)
    refine ⟨fun hnone => by rw [hcrlf, hnone]; rfl, fun f r hrun => ?_⟩
    rw [hrun] at hcrlf
    exact many_of_some hcrlf (length_crlf_lt (p := plainTriple q) rfl hrun)

/-- A string between three quotes is read alike in both texts. -/
theorem agrees_tripleQuoted (hq : q ∈ quotes) : Agrees (tripleQuoted q) :=
  (agrees_quotes hq).seq ((agrees_star_tripleContent hq).seq (agrees_quotes hq))

/-- A string between three quotes starts with them. -/
theorem quotes_prefix_of_tripleQuoted (h : (tripleQuoted q).run s = some (f, r)) :
    [q, q, q] <+: f.text := by
  obtain ⟨f₁, _, _, h₁, -, rfl⟩ := run_seq.mp h
  obtain ⟨_, _, f₂, ha, h₂, rfl⟩ := run_seq.mp h₁
  obtain ⟨_, _, _, hb, hc, rfl⟩ := run_seq.mp h₂
  obtain ⟨-, rfl⟩ := run_chr.mp ha
  obtain ⟨-, rfl⟩ := run_chr.mp hb
  obtain ⟨-, rfl⟩ := run_chr.mp hc
  rw [Forest.text_append]
  exact List.prefix_append _ _

/-! ## Strings between two quotes -/

/-- A character of a string between two quotes: neither the quote nor a line end. -/
def plainQuoted (q : Char) : Pattern Rule :=
  noneOf (q :: lineEnds)

/-- Neither the quote nor a line end is a plain character between two quotes. -/
theorem run_plainQuoted (h : c ∈ q :: lineEnds) (u : List Char) :
    (plainQuoted q).run (c :: u) = none := by
  have hc : (q :: lineEnds).contains c = true := List.contains_iff_mem.mpr h
  rw [plainQuoted, noneOf, run, hc]
  rfl

/-- A plain character between two quotes is read alike in both texts. -/
theorem agrees_plainQuoted : Agrees (plainQuoted q) := by
  refine agrees_one fun c hc => ?_
  have hmem : (q :: lineEnds).contains c = true :=
    List.contains_iff_mem.mpr (List.mem_cons_of_mem _ hc)
  rw [hmem]
  rfl

/-- A character of a string is no line feed, and is taken from both texts. -/
theorem run_plainQuoted_crlf (hs : '\r' ∉ s) (h : (plainQuoted q).run s = some (f, r)) :
    '\n' ∉ f.text ∧ (plainQuoted q).run (crlf s) = some (f.crlf, crlf r) := by
  refine ⟨fun hmem => ?_, by rw [agrees_plainQuoted s hs, h]; rfl⟩
  obtain ⟨c, haccepts, -, rfl⟩ := run_one.mp h
  obtain rfl := List.mem_singleton.mp hmem
  simp [lineEnds] at haccepts

/-- Where a line feed is escaped, the pieces of the other text end before it. -/
theorem many_quotedContent_escape_feed (u : List Char) :
    (many (piece (plainQuoted q)).run (crlf ('\\' :: '\n' :: u))).2 = '\n' :: crlf u := by
  have hstop : (piece (plainQuoted q)).run ('\n' :: crlf u) = none := by
    rw [run_piece (by rintro ⟨d, u, h⟩; simp at h), run_plainQuoted (by simp [lineEnds])]
  rw [many_piece_escape_feed, many_of_none hstop]

/-- The pieces of a string between two quotes are the same ones, unless they go over the end of a
line; then they end before the line feed. -/
theorem many_quotedContent (hs : '\r' ∉ s) :
    ('\n' ∉ (many (piece (plainQuoted q)).run s).1.text ∧
        many (piece (plainQuoted q)).run (crlf s) =
          crlfMatch (many (piece (plainQuoted q)).run s)) ∨
      ('\n' ∈ (many (piece (plainQuoted q)).run s).1.text ∧
        ∃ t, (many (piece (plainQuoted q)).run (crlf s)).2 = '\n' :: t) := by
  fun_induction many (piece (plainQuoted q)).run s with
  | case1 s hnone =>
    refine .inl ⟨List.not_mem_nil, many_of_none ?_⟩
    have hescape : ¬ Escapes s := by
      rintro ⟨d, u, rfl⟩
      simp [run_piece_escape] at hnone
    rw [run_piece hescape] at hnone
    rw [run_piece (mt escapes_crlf.mp hescape), agrees_plainQuoted s hs, hnone]
    rfl
  | case2 s f r hrun hlt g t hm ih =>
    have ih := ih (not_mem_rest hs hrun)
    rw [hm] at ih
    rw [Forest.text_append, List.mem_append, not_or]
    by_cases hescape : Escapes s
    · obtain ⟨d, u, rfl⟩ := hescape
      rw [run_piece_escape, Option.some.injEq, Prod.mk.injEq] at hrun
      obtain ⟨rfl, rfl⟩ := hrun
      by_cases hd : d = '\n'
      · -- The carriage return is escaped, and the line feed is no piece.
        subst hd
        exact .inr ⟨.inl (by simp [Forest.text]), _, many_quotedContent_escape_feed u⟩
      · have hnot : '\n' ∉ (Forest.char '\\' (.char d .nil) : Forest Rule).text := by
          simpa [Forest.text] using fun e => hd e.symm
        rw [many_piece_escape hd]
        refine ih.imp (fun h => ⟨⟨hnot, h.1⟩, ?_⟩) fun h => ⟨.inr h.1, h.2⟩
        rw [h.2]
        simp [crlfMatch, Forest.crlf, hd]
    · have hplain := run_plainQuoted_crlf hs ((run_piece hescape).symm.trans hrun)
      -- A plain piece has no line feed, and the other text has the same piece.
      have hcrlf := (run_piece (mt escapes_crlf.mp hescape)).trans hplain.2
      rw [many_of_some hcrlf (length_crlf_lt rfl hrun)]
      refine ih.imp (fun h => ⟨⟨hplain.1, h.1⟩, ?_⟩) fun h => ⟨.inr h.1, h.2⟩
      rw [h.2]
      simp [crlfMatch]
  | case3 s f r hrun hlt => exact absurd (length_lt_of_consumes rfl hrun) hlt

/-- A string between two quotes is a quote, pieces up to the next one, and that quote. -/
theorem run_quoted : (quoted q).run s = some (f, r) ↔ ∃ t g, s = q :: t ∧
    many (piece (plainQuoted q)).run t = (g, q :: r) ∧ f = .char q (g ++ .char q .nil) := by
  constructor
  · intro h
    obtain ⟨f₁, t, f₂, hopen, h₁, rfl⟩ := run_seq.mp h
    obtain ⟨g, t', f₃, hcontent, hclose, rfl⟩ := run_seq.mp h₁
    obtain ⟨rfl, rfl⟩ := run_chr.mp hopen
    obtain ⟨rfl, rfl⟩ := run_chr.mp hclose
    rw [run_star, Option.some.injEq] at hcontent
    exact ⟨t, g, rfl, hcontent, rfl⟩
  · rintro ⟨t, g, rfl, hcontent, rfl⟩
    refine run_seq.mpr ⟨.char q .nil, t, _, run_chr.mpr ⟨rfl, rfl⟩, ?_, rfl⟩
    refine run_seq.mpr ⟨g, q :: r, .char q .nil, ?_, run_chr.mpr ⟨rfl, rfl⟩, rfl⟩
    exact run_star.trans (congrArg some hcontent)

/-- A character other than a carriage return starts both texts or none. -/
theorem crlf_eq_cons {t : List Char} (hc : c ≠ '\r') (h : crlf s = c :: t) :
    ∃ u, s = c :: u ∧ t = crlf u := by
  cases s with
  | nil => simp at h
  | cons d u =>
    by_cases hd : d = '\n'
    · rw [hd, Text.crlf_feed, List.cons.injEq] at h
      exact absurd h.1.symm hc
    · rw [Text.crlf_cons hd, List.cons.injEq] at h
      obtain ⟨rfl, rfl⟩ := h
      exact ⟨u, rfl, rfl⟩

/-- A string between two quotes is one in both texts if it stands on one line. -/
theorem quoted_crlf (hq : q ∈ quotes) (hs : '\r' ∉ s) :
    ((quoted q).run s = none → (quoted q).run (crlf s) = none) ∧
      ∀ f r, (quoted q).run s = some (f, r) →
        ('\n' ∉ f.text ∧ (quoted q).run (crlf s) = some (f.crlf, crlf r)) ∨
          ('\n' ∈ f.text ∧ (quoted q).run (crlf s) = none) := by
  have hends := not_mem_lineEnds hq
  have hfeed : q ≠ '\n' := fun e => hends (by simp [e, lineEnds])
  have hreturn : q ≠ '\r' := fun e => hends (by simp [e, lineEnds])
  -- A match in the other text has the same pieces.
  have hback : ∀ f' r', (quoted q).run (crlf s) = some (f', r') → ∃ t g r, s = q :: t ∧
      many (piece (plainQuoted q)).run t = (g, q :: r) ∧ '\n' ∉ g.text := by
    intro f' r' hrun
    obtain ⟨t', g', hopen, hcontent, -⟩ := run_quoted.mp hrun
    obtain ⟨t, rfl, rfl⟩ := crlf_eq_cons hreturn hopen
    rcases many_quotedContent (fun hmem => hs (List.mem_cons_of_mem _ hmem)) with
      ⟨hnot, hsame⟩ | ⟨-, u, hstop⟩
    · rw [hcontent, crlfMatch, Prod.mk.injEq] at hsame
      obtain ⟨r, hr, -⟩ := crlf_eq_cons hreturn hsame.2.symm
      exact ⟨t, _, r, rfl, by rw [← hr], hnot⟩
    · rw [hcontent] at hstop
      exact absurd (List.cons.inj hstop).1 hfeed
  constructor
  · -- What matches in the other text matches in this one as well.
    intro hnone
    by_contra hne
    obtain ⟨⟨f', r'⟩, hrun⟩ := Option.ne_none_iff_exists'.mp hne
    obtain ⟨t, g, r, hopen, hcontent, -⟩ := hback f' r' hrun
    rw [run_quoted.mpr ⟨t, g, hopen, hcontent, rfl⟩] at hnone
    simp at hnone
  · intro f r hrun
    obtain ⟨t, g, rfl, hcontent, rfl⟩ := run_quoted.mp hrun
    have htext : '\n' ∈ (Forest.char q (g ++ .char q .nil)).text ↔ '\n' ∈ g.text := by
      simp [Forest.text, hfeed.symm]
    rw [htext]
    by_cases hmem : '\n' ∈ g.text
    · -- The escape takes the carriage return of the other text and leaves the line feed, which ends
      -- the string.
      refine .inr ⟨hmem, ?_⟩
      by_contra hne
      obtain ⟨⟨f', r'⟩, hrun'⟩ := Option.ne_none_iff_exists'.mp hne
      obtain ⟨t', g', r', hopen, hcontent', hnot⟩ := hback f' r' hrun'
      obtain rfl := (List.cons.inj hopen).2
      rw [hcontent, Prod.mk.injEq] at hcontent'
      exact hnot (hcontent'.1 ▸ hmem)
    · refine .inl ⟨hmem, ?_⟩
      have hsame := (many_quotedContent fun hmem => hs (List.mem_cons_of_mem _ hmem)).resolve_right
        (by rw [hcontent]; exact fun h => hmem h.1)
      rw [hcontent] at hsame
      refine run_quoted.mpr ⟨crlf t, g.crlf, Text.crlf_cons hfeed t, ?_, ?_⟩
      · rw [hsame.2, crlfMatch, Text.crlf_cons hfeed]
      · simp [Forest.crlf, hfeed]

/-- A string between two quotes does not start with three. -/
theorem not_quotes_prefix_of_quoted (hq : q ∈ quotes) (h : (quoted q).run s = some (f, r)) :
    ∀ q' ∈ quotes, ¬ [q', q', q'] <+: f.text := by
  intro q' _ hprefix
  obtain ⟨t, g, rfl, hcontent, rfl⟩ := run_quoted.mp h
  rw [Forest.text, Forest.text_append, List.cons_prefix_cons] at hprefix
  obtain ⟨rfl, hprefix⟩ := hprefix
  have hlossless := (lossless_run (piece (plainQuoted q'))).many_text t
  rw [hcontent] at hlossless
  cases hg : g.text with
  | nil => simp [hg, Forest.text] at hprefix
  | cons d u =>
    rw [hg, List.cons_append, List.cons_prefix_cons] at hprefix
    -- The first piece would be the quote, which is none.
    have hstart : t = q' :: (u ++ q' :: r) := by rw [hlossless, hg, ← hprefix.1]; rfl
    have hnone : (piece (plainQuoted q')).run t = none := by
      rw [hstart, run_piece, run_plainQuoted List.mem_cons_self]
      rintro ⟨d, u, h⟩
      obtain ⟨rfl, -⟩ := List.cons.inj h
      simp [quotes] at hq
    rw [many_of_none hnone, Prod.mk.injEq] at hcontent
    rw [← hcontent.1] at hg
    simp [Forest.text] at hg

/-! ## Literals -/

/-- The pattern matches the literal of both texts, unless it goes over the end of a line in one pair
of quotes. -/
def ReadsLiteral (p : Pattern Rule) (s : List Char) : Prop :=
  (p.run s = none → p.run (crlf s) = none) ∧
    ∀ f r, p.run s = some (f, r) →
      (¬ IsContinued f.text ∧ p.run (crlf s) = some (f.crlf, crlf r)) ∨
        (IsContinued f.text ∧ p.run (crlf s) = none)

/-- A literal of one of two kinds is read if both kinds are, and no continued literal of the first
kind is one of the second with other line endings. -/
theorem ReadsLiteral.orElse {p q : Pattern Rule} (hp : ReadsLiteral p s) (hq : ReadsLiteral q s)
    (hexclusive : ∀ f r, p.run s = some (f, r) → IsContinued f.text → q.run (crlf s) = none) :
    ReadsLiteral (orElse p q) s := by
  constructor
  · intro hrun
    obtain ⟨hfirst, hsecond⟩ := run_orElse_eq_none.mp hrun
    exact run_orElse_eq_none.mpr ⟨hp.1 hfirst, hq.1 hsecond⟩
  · intro f r hrun
    rcases run_orElse.mp hrun with hfirst | ⟨hfirst, hsecond⟩
    · refine (hp.2 f r hfirst).imp (fun h => ⟨h.1, run_orElse.mpr (.inl h.2)⟩) fun h => ⟨h.1, ?_⟩
      exact run_orElse_eq_none.mpr ⟨h.2, hexclusive f r hfirst h.1⟩
    · refine (hq.2 f r hsecond).imp (fun h => ⟨h.1, ?_⟩) fun h => ⟨h.1, ?_⟩
      · exact run_orElse.mpr (.inr ⟨hp.1 hfirst, h.2⟩)
      · exact run_orElse_eq_none.mpr ⟨hp.1 hfirst, h.2⟩

/-- A string between three quotes is not continued, whatever lines it goes over. -/
theorem not_isContinued_of_tripleQuoted (hq : q ∈ quotes)
    (h : (tripleQuoted q).run s = some (f, r)) : ¬ IsContinued f.text :=
  fun hcontinued => hcontinued.2 q hq (quotes_prefix_of_tripleQuoted h)

/-- A string between three quotes is matched in both texts. -/
theorem readsLiteral_tripleQuoted (hq : q ∈ quotes) (hs : '\r' ∉ s) :
    ReadsLiteral (tripleQuoted q) s := by
  have hsame := agrees_tripleQuoted hq s hs
  refine ⟨fun hrun => by rw [hsame, hrun]; rfl, fun f r hrun => .inl ⟨?_, ?_⟩⟩
  · exact not_isContinued_of_tripleQuoted hq hrun
  · rw [hsame, hrun]
    rfl

/-- A string between two quotes is matched in both texts, unless it goes over the end of a line. -/
theorem readsLiteral_quoted (hq : q ∈ quotes) (hs : '\r' ∉ s) : ReadsLiteral (quoted q) s := by
  obtain ⟨hnone, hsome⟩ := quoted_crlf hq hs
  refine ⟨hnone, fun f r hrun => ?_⟩
  exact (hsome f r hrun).imp (fun h => ⟨fun hcontinued => h.1 hcontinued.1, h.2⟩) fun h =>
    ⟨⟨h.1, not_quotes_prefix_of_quoted hq hrun⟩, h.2⟩

/-- A string literal fails exactly if it goes over the end of a line in one pair of quotes. -/
theorem follows_stringLiteral : Follows stringLiteral Fails := by
  intro s hs
  have hdouble : '"' ∈ quotes := by decide
  have hsingle : '\'' ∈ quotes := by decide
  have hreads : ReadsLiteral stringLiteral s := by
    refine (readsLiteral_tripleQuoted hdouble hs).orElse ?_ fun f r hrun hcontinued =>
      absurd hcontinued (not_isContinued_of_tripleQuoted hdouble hrun)
    refine (readsLiteral_tripleQuoted hsingle hs).orElse ?_ fun f r hrun hcontinued =>
      absurd hcontinued (not_isContinued_of_tripleQuoted hsingle hrun)
    refine (readsLiteral_quoted hdouble hs).orElse (readsLiteral_quoted hsingle hs) ?_
    intro f r hrun _
    obtain ⟨t, _, rfl, -, -⟩ := run_quoted.mp hrun
    rw [Text.crlf_cons (by decide)]
    exact run_of_peek_false (by decide) _
  refine ⟨hreads.1, fun f r hrun => ⟨[f.text], .literal hrun (.nil r), ?_⟩⟩
  rw [hasContinued_cons]
  refine (hreads.2 f r hrun).imp (fun h => ⟨by simp [h.1], h.2⟩) fun h => ⟨.inl h.1, ?_⟩
  rw [Fails, restOf, h.2]
  rfl

end UdfBridge.Source
