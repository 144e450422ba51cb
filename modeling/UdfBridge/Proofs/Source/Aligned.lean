import UdfBridge.Proofs.Source.LineEnding

/-!
# Texts with the same tokens

Two texts are `Aligned` up to a place in each of them if up to there they are made of the same
tokens: of string literals, comments, and characters that start neither. Where a text is replaced
behind a scan, the scan goes through in the other text as well, with one exception: three quotes
that nothing closes are the start of a string between three quotes if the other text closes them
(`aligned_of_scan`).
-/

namespace UdfBridge.Source

open Grammar
open Grammar.Pattern

variable {p : Pattern Rule} {q c : Char} {s t r u : List Char} {f g : Forest Rule}

/-! ## Tokens in front of another text -/

/-- A repetition that ends before `b` does the same before `b'`, if each of its steps does and the
last one fails there. -/
theorem many_before {b b' : List Char} (hconsumes : p.consumes = true)
    (hstep : ∀ f x, p.run (f.text ++ (x ++ b)) = some (f, x ++ b) →
      p.run (f.text ++ (x ++ b')) = some (f, x ++ b'))
    (hstop : p.run b' = none) (h : many p.run s = (g, b)) :
    many p.run (g.text ++ b') = (g, b') := by
  fun_induction many p.run s generalizing g with
  | case1 s hnone =>
    obtain ⟨rfl, rfl⟩ := Prod.mk.inj h
    exact many_of_none hstop
  | case2 s f r hrun hlt g t hm ih =>
    obtain ⟨rfl, rfl⟩ := Prod.mk.inj h
    have hr : r = g.text ++ t := by
      have := (lossless_run p).many_text r
      rwa [hm] at this
    have hs : s = f.text ++ r := lossless_run p _ _ _ hrun
    rw [hr] at hs hrun
    have hrun' := hstep f g.text (hs ▸ hrun)
    rw [Forest.text_append, List.append_assoc,
      many_of_some hrun' (length_lt_of_consumes hconsumes hrun'), ih hm]
  | case3 s f r hrun hlt => exact absurd (length_lt_of_consumes hconsumes hrun) hlt

/-- A word is matched where the text starts with it. -/
theorem run_word {cs : List Char} :
    (word cs).run s = some (f, r) ↔ s = cs ++ r ∧ f = plainForest cs := by
  induction cs generalizing s f with
  | nil => rw [word, run_empty, and_comm, eq_comm]; rfl
  | cons c cs ih =>
    cases cs with
    | nil => exact run_chr
    | cons d cs =>
      show (seq (chr c) (word (d :: cs))).run s = some (f, r) ↔ _
      rw [run_seq]
      constructor
      · rintro ⟨f₁, r₁, f₂, h₁, h₂, rfl⟩
        obtain ⟨rfl, rfl⟩ := run_chr.mp h₁
        obtain ⟨rfl, rfl⟩ := ih.mp h₂
        exact ⟨rfl, rfl⟩
      · rintro ⟨rfl, rfl⟩
        exact ⟨_, _, _, run_chr.mpr ⟨rfl, rfl⟩, ih.mpr ⟨rfl, rfl⟩, rfl⟩

/-- A word is refused where the text does not start with it. -/
theorem run_word_eq_none {cs : List Char} :
    (word cs : Pattern Rule).run s = none ↔ ¬ cs <+: s := by
  rw [Option.eq_none_iff_forall_ne_some]
  constructor
  · rintro h ⟨r, rfl⟩
    exact h (plainForest cs, r) (run_word.mpr ⟨rfl, rfl⟩)
  · rintro h ⟨f, r⟩ hrun
    exact h ⟨r, (run_word.mp hrun).1.symm⟩

/-- A string between three quotes has pieces up to the next three. -/
theorem run_tripleQuoted : (tripleQuoted q).run s = some (f, r) ↔ ∃ t g, s = [q, q, q] ++ t ∧
    many (piece (plainTriple q)).run t = (g, [q, q, q] ++ r) ∧
      f = plainForest [q, q, q] ++ (g ++ plainForest [q, q, q]) := by
  constructor
  · intro h
    obtain ⟨f₁, t, f₂, hopen, h₁, rfl⟩ := run_seq.mp h
    obtain ⟨g, t', f₃, hcontent, hclose, rfl⟩ := run_seq.mp h₁
    obtain ⟨rfl, rfl⟩ := run_word.mp hopen
    obtain ⟨rfl, rfl⟩ := run_word.mp hclose
    rw [run_star, Option.some.injEq] at hcontent
    exact ⟨t, g, rfl, hcontent, rfl⟩
  · rintro ⟨t, g, rfl, hcontent, rfl⟩
    exact run_seq.mpr ⟨_, t, _, run_word.mpr ⟨rfl, rfl⟩, run_seq.mpr ⟨g, _, _,
      run_star.trans (congrArg some hcontent), run_word.mpr ⟨rfl, rfl⟩, rfl⟩, rfl⟩

/-- Three quotes are no piece. -/
theorem run_piece_quotes (hq : q ∈ quotes) (r : List Char) :
    (piece (plainTriple q)).run ([q, q, q] ++ r) = none := by
  have hescape : ¬ Escapes ([q, q, q] ++ r) := by
    rintro ⟨d, u, h⟩
    obtain ⟨rfl, -⟩ := List.cons.inj h
    simp [quotes] at hq
  rw [run_piece hescape]
  show (plainTriple q).run (q :: ([q, q] ++ r)) = none
  rw [run_plainTriple, if_neg]
  rw [run_word_eq_none, not_not]
  exact List.prefix_append _ _

/-- A piece of a string is an escaped character or a match of `plain` at another place. -/
theorem run_piece_cases {plain : Pattern Rule} (h : (piece plain).run s = some (f, r)) :
    (∃ d, s = '\\' :: d :: r ∧ f = plainForest ['\\', d]) ∨
      (¬ Escapes s ∧ plain.run s = some (f, r)) := by
  by_cases hescape : Escapes s
  · obtain ⟨d, u, rfl⟩ := hescape
    rw [run_piece_escape, Option.some.injEq, Prod.mk.injEq] at h
    obtain ⟨rfl, rfl⟩ := h
    exact .inl ⟨d, rfl, rfl⟩
  · rw [run_piece hescape] at h
    exact .inr ⟨hescape, h⟩

/-- What is escaped stands before the end of the string. -/
theorem not_escapes_before {x y y' : List Char} {d : Char} (h : ¬ Escapes (c :: (x ++ d :: y))) :
    ¬ Escapes (c :: (x ++ d :: y')) := by
  rintro ⟨e, u, heq⟩
  obtain ⟨rfl, -⟩ := List.cons.inj heq
  cases x with
  | nil => exact h ⟨d, y, rfl⟩
  | cons a x => exact h ⟨a, x ++ d :: y, rfl⟩

/-- A string between three quotes does not depend on what stands behind it. -/
theorem tripleQuoted_before (hq : q ∈ quotes) (h : (tripleQuoted q).run s = some (f, r))
    (r' : List Char) : (tripleQuoted q).run (f.text ++ r') = some (f, r') := by
  obtain ⟨t, g, rfl, hcontent, rfl⟩ := run_tripleQuoted.mp h
  refine run_tripleQuoted.mpr ⟨g.text ++ ([q, q, q] ++ r'), g, by simp, ?_, rfl⟩
  refine many_before rfl (fun f x hrun => ?_) (run_piece_quotes hq r') hcontent
  rcases run_piece_cases hrun with ⟨d, heq, rfl⟩ | ⟨hescape, hplain⟩
  · exact run_piece_escape _ d _
  · -- The three characters from the piece on stand before `r`.
    generalize hs : f.text ++ (x ++ ([q, q, q] ++ r)) = s at hplain hescape
    cases s with
    | nil => simp at hs
    | cons c s =>
      rw [run_plainTriple] at hplain
      split at hplain
      · rename_i hword
        obtain ⟨rfl, rfl⟩ := Prod.mk.inj (Option.some.inj hplain)
        have hbefore : ¬ Escapes (c :: (x ++ ([q, q, q] ++ r'))) := not_escapes_before hescape
        show (piece (plainTriple q)).run (c :: (x ++ ([q, q, q] ++ r'))) = _
        rw [run_piece hbefore, run_plainTriple, if_pos]
        -- Three quotes that the second text has there, the first one has too, for they end before
        -- `r'`.
        rw [run_word_eq_none] at hword ⊢
        intro hpre
        have hshort : [q, q, q] <+: c :: (x ++ [q, q, q]) :=
          List.prefix_of_prefix_length_le hpre ⟨r', by simp⟩ (by simp)
        exact hword (hshort.trans ⟨r, by simp⟩)
      · simp at hplain

/-- A string between two quotes does not depend on what stands behind it. -/
theorem quoted_before (hq : q ∈ quotes) (h : (quoted q).run s = some (f, r)) (r' : List Char) :
    (quoted q).run (f.text ++ r') = some (f, r') := by
  obtain ⟨t, g, rfl, hcontent, rfl⟩ := run_quoted.mp h
  refine run_quoted.mpr ⟨g.text ++ q :: r', g, by simp [Forest.text], ?_, rfl⟩
  have hquote : ∀ u, ¬ Escapes (q :: u) := by
    rintro u ⟨d, v, heq⟩
    obtain ⟨rfl, -⟩ := List.cons.inj heq
    simp [quotes] at hq
  refine many_before rfl (fun f x hrun => ?_) ?_ hcontent
  · rcases run_piece_cases hrun with ⟨d, heq, rfl⟩ | ⟨hescape, hplain⟩
    · exact run_piece_escape _ d _
    · obtain ⟨c, haccepts, -, rfl⟩ := run_one.mp hplain
      show (piece (plainQuoted q)).run (c :: (x ++ q :: r')) = _
      rw [run_piece (not_escapes_before hescape)]
      exact run_one.mpr ⟨c, haccepts, rfl, rfl⟩
  · rw [run_piece (hquote r'), run_plainQuoted List.mem_cons_self]

/-- A string literal is the same one in front of another text, unless three quotes that nothing
closes are closed there. -/
theorem stringLiteral_before (h : stringLiteral.run s = some (f, r)) {r' : List Char}
    (hopen : ∀ q ∈ quotes, (tripleQuoted q).run s = none →
      (tripleQuoted q).run (f.text ++ r') = none) :
    stringLiteral.run (f.text ++ r') = some (f, r') := by
  have hdouble : '"' ∈ quotes := by decide
  have hsingle : '\'' ∈ quotes := by decide
  rcases run_orElse.mp h with h | ⟨h₁, h⟩
  · exact run_orElse.mpr (.inl (tripleQuoted_before hdouble h r'))
  refine run_orElse.mpr (.inr ⟨hopen _ hdouble h₁, ?_⟩)
  rcases run_orElse.mp h with h | ⟨h₂, h⟩
  · exact run_orElse.mpr (.inl (tripleQuoted_before hsingle h r'))
  refine run_orElse.mpr (.inr ⟨hopen _ hsingle h₂, ?_⟩)
  rcases run_orElse.mp h with h | ⟨h₃, h⟩
  · exact run_orElse.mpr (.inl (quoted_before hdouble h r'))
  · -- The literal starts with the one kind of quotes and not with the other.
    refine run_orElse.mpr (.inr ⟨?_, quoted_before hsingle h r'⟩)
    obtain ⟨t, g, rfl, -, rfl⟩ := run_quoted.mp h
    exact run_of_peek_false (by decide) _

/-- A comment ends where a line ends. -/
theorem mem_lineEnds_of_comment (h : comment.run s = some (f, c :: r)) : c ∈ lineEnds := by
  obtain ⟨f₁, t, f₂, -, hline, -⟩ := run_seq.mp h
  rw [run_star, Option.some.injEq] at hline
  have hstop := many_many (noneOf lineEnds : Pattern Rule).run t
  rw [hline] at hstop
  by_contra hc
  have hcontains : lineEnds.contains c = false := by simpa using hc
  have hrun : (noneOf lineEnds : Pattern Rule).run (c :: r) = some (.char c .nil, r) := by
    simp [noneOf, run, hc]
  rw [many_of_some hrun (by simp)] at hstop
  simp at hstop

/-- A comment does not depend on what stands behind the end of its line. -/
theorem comment_before (h : comment.run s = some (f, c :: r)) (r' : List Char) :
    comment.run (f.text ++ c :: r') = some (f, c :: r') := by
  have hc := mem_lineEnds_of_comment h
  obtain ⟨f₁, t, f₂, hsign, hline, rfl⟩ := run_seq.mp h
  obtain ⟨rfl, rfl⟩ := run_chr.mp hsign
  rw [run_star, Option.some.injEq] at hline
  refine run_seq.mpr ⟨_, f₂.text ++ c :: r', f₂, run_chr.mpr ⟨rfl, rfl⟩, ?_, rfl⟩
  rw [run_star, Option.some.injEq]
  refine many_before rfl (fun f x hrun => ?_) ?_ hline
  · obtain ⟨d, haccepts, -, rfl⟩ := run_one.mp hrun
    exact run_one.mpr ⟨d, haccepts, rfl, rfl⟩
  · simp [noneOf, run, hc]

/-! ## Aligned texts -/

/-- Up to `old` in the one text and to `new` in the other one the texts are made of the same
tokens. -/
inductive Aligned (old new : List Char) : List Char → List Char → Prop where
  | here : Aligned old new old new
  | literal {s t r u : List Char} {f : Forest Rule} (hs : stringLiteral.run s = some (f, r))
    (ht : stringLiteral.run t = some (f, u)) (rest : Aligned old new r u) : Aligned old new s t
  | comment {s t r u : List Char} {f : Forest Rule} (hs : comment.run s = some (f, r))
    (ht : comment.run t = some (f, u)) (rest : Aligned old new r u) : Aligned old new s t
  | char {c : Char} {s t : List Char} (token : c ∉ '#' :: quotes) (rest : Aligned old new s t) :
    Aligned old new (c :: s) (c :: t)

variable {old new : List Char}

/-- Aligned texts are the same up to the place. -/
theorem Aligned.exists_text (h : Aligned old new s t) : ∃ x, s = x ++ old ∧ t = x ++ new := by
  induction h with
  | here => exact ⟨[], rfl, rfl⟩
  | @literal s t r u f hs ht _ ih =>
    obtain ⟨x, rfl, rfl⟩ := ih
    refine ⟨f.text ++ x, ?_, ?_⟩
    · rw [lossless_run _ _ _ _ hs, List.append_assoc]
    · rw [lossless_run _ _ _ _ ht, List.append_assoc]
  | @comment s t r u f hs ht _ ih =>
    obtain ⟨x, rfl, rfl⟩ := ih
    refine ⟨f.text ++ x, ?_, ?_⟩
    · rw [lossless_run _ _ _ _ hs, List.append_assoc]
    · rw [lossless_run _ _ _ _ ht, List.append_assoc]
  | @char c s t _ _ ih =>
    obtain ⟨x, rfl, rfl⟩ := ih
    exact ⟨c :: x, rfl, rfl⟩

/-- The text of a scan ends with the text that is left. -/
theorem Scan.exists_text {ls : List (List Char)} (h : Scan s r ls) : ∃ x, s = x ++ r := by
  induction h with
  | nil s => exact ⟨[], rfl⟩
  | @literal s t r f ls token _ ih =>
    obtain ⟨x, rfl⟩ := ih
    exact ⟨f.text ++ x, by rw [lossless_run _ _ _ _ token, List.append_assoc]⟩
  | @comment s t r f ls token _ ih =>
    obtain ⟨x, rfl⟩ := ih
    exact ⟨f.text ++ x, by rw [lossless_run _ _ _ _ token, List.append_assoc]⟩
  | @char c s r ls _ _ ih =>
    obtain ⟨x, rfl⟩ := ih
    exact ⟨c :: x, rfl⟩

/-- A scan up to a place goes through in the other text, unless three quotes that nothing closes are
closed there. -/
theorem aligned_of_scan {ls : List (List Char)} (hscan : Scan s old ls)
    (hold : ∀ c ∈ old.head?, c ∉ lineEnds) (hne : old ≠ []) {x : List Char}
    (hopen : ∀ b, Aligned (b ++ old) (b ++ new) s (x ++ new) → ∀ q ∈ quotes,
      (tripleQuoted q).run (b ++ old) = none → (tripleQuoted q).run (b ++ new) = none)
    (hs : s = x ++ old) : Aligned old new s (x ++ new) := by
  induction hscan generalizing x with
  | nil s =>
    obtain rfl : x = [] := List.self_eq_append_left.mp hs
    exact .here
  | @literal s t old f ls token rest ih =>
    obtain ⟨y, rfl⟩ := rest.exists_text
    have htext := lossless_run _ _ _ _ token
    rw [← List.append_assoc] at htext
    obtain rfl : f.text ++ y = x := List.append_cancel_right (htext.symm.trans hs)
    subst htext
    -- The literal is the same in front of `new`, since nothing opens a longer one there.
    have token' : stringLiteral.run (f.text ++ y ++ new) = some (f, y ++ new) := by
      rw [List.append_assoc]
      refine stringLiteral_before token fun q hq hnone => ?_
      rw [← List.append_assoc]
      exact hopen (f.text ++ y) .here q hq hnone
    exact .literal token token' (ih hold hne (fun b hb => hopen b (.literal token token' hb)) rfl)
  | @comment s t old f ls token rest ih =>
    obtain ⟨y, rfl⟩ := rest.exists_text
    have htext := lossless_run _ _ _ _ token
    rw [← List.append_assoc] at htext
    obtain rfl : f.text ++ y = x := List.append_cancel_right (htext.symm.trans hs)
    cases y with
    | nil =>
      -- The comment would go on to the end of its line.
      obtain ⟨c, o, rfl⟩ := List.exists_cons_of_ne_nil hne
      exact absurd (mem_lineEnds_of_comment token) (hold c rfl)
    | cons c y =>
      have token' : comment.run (f.text ++ c :: y ++ new) = some (f, c :: y ++ new) := by
        rw [List.append_assoc]
        exact comment_before token (y ++ new)
      exact .comment token token' (ih hold hne (fun b hb => hopen b (.comment token token' hb)) rfl)
  | @char c s old ls token rest ih =>
    -- A single character is read whatever stands behind it.
    obtain ⟨y, rfl⟩ := rest.exists_text
    rw [← List.cons_append] at hs
    obtain rfl : c :: y = x := List.append_cancel_right hs
    exact .char token (ih hold hne (fun b hb => hopen b (.char token hb)) rfl)

/-- The first character of a text that is scanned decides which token comes first. -/
theorem Scan.first_token {ls : List (List Char)} (h : Scan (c :: s) r ls)
    (hlt : r.length < (c :: s).length) :
    (c ∈ quotes ∧ ∃ f t ls, stringLiteral.run (c :: s) = some (f, t) ∧ Scan t r ls) ∨
      (c = '#' ∧ ∃ f t ls, Source.comment.run (c :: s) = some (f, t) ∧ Scan t r ls) ∨
      (c ∉ '#' :: quotes ∧ ∃ ls, Scan s r ls) := by
  cases h with
  | nil => exact absurd hlt (Nat.lt_irrefl _)
  | literal token rest =>
    obtain ⟨q, hq, u, heq⟩ := exists_quote_of_stringLiteral token
    obtain ⟨rfl, rfl⟩ := List.cons.inj heq
    exact .inl ⟨hq, _, _, _, token, rest⟩
  | comment token rest =>
    obtain ⟨u, heq⟩ := exists_sign_of_comment token
    obtain ⟨rfl, rfl⟩ := List.cons.inj heq
    exact .inr (.inl ⟨rfl, _, _, _, token, rest⟩)
  | char token rest => exact .inr (.inr ⟨token, _, rest⟩)

/-- A literal at the start of a text that is scanned is a token of the scan. -/
theorem Scan.behind_literal {ls : List (List Char)} (h : Scan s r ls) (hlt : r.length < s.length)
    (token : stringLiteral.run s = some (f, t)) : ∃ ls, Scan t r ls := by
  obtain ⟨q, hq, u, rfl⟩ := exists_quote_of_stringLiteral token
  rcases h.first_token hlt with ⟨-, g, t', ls, token', rest⟩ | ⟨rfl, -⟩ | ⟨hc, -⟩
  · obtain ⟨rfl, rfl⟩ := Prod.mk.inj (Option.some.inj (token.symm.trans token'))
    exact ⟨ls, rest⟩
  · simp [quotes] at hq
  · exact absurd (List.mem_cons_of_mem _ hq) hc

/-- A comment at the start of a text that is scanned is a token of the scan. -/
theorem Scan.behind_comment {ls : List (List Char)} (h : Scan s r ls) (hlt : r.length < s.length)
    (token : Source.comment.run s = some (f, t)) : ∃ ls, Scan t r ls := by
  obtain ⟨u, rfl⟩ := exists_sign_of_comment token
  rcases h.first_token hlt with ⟨hc, -⟩ | ⟨-, g, t', ls, token', rest⟩ | ⟨hc, -⟩
  · simp [quotes] at hc
  · obtain ⟨rfl, rfl⟩ := Prod.mk.inj (Option.some.inj (token.symm.trans token'))
    exact ⟨ls, rest⟩
  · simp at hc

/-- A scan goes on behind aligned tokens. -/
theorem Aligned.scan_rest {m : List Char} {ls : List (List Char)} (h : Aligned old new s t)
    (hscan : Scan t m ls) (hle : m.length ≤ new.length) : ∃ ls, Scan new m ls := by
  -- The place of `new` is behind `m`, so the scan still has every token of the alignment to read.
  have hlength : ∀ {s t}, Aligned old new s t → m.length ≤ t.length := by
    intro s t h
    obtain ⟨x, -, rfl⟩ := h.exists_text
    simp only [List.length_append]
    omega
  induction h generalizing ls with
  | here => exact ⟨ls, hscan⟩
  | literal _ ht rest ih =>
    have hlt := (hlength rest).trans_lt (length_lt_of_consumes rfl ht)
    obtain ⟨ls, hrest⟩ := hscan.behind_literal hlt ht
    exact ih hrest
  | comment _ ht rest ih =>
    have hlt := (hlength rest).trans_lt (length_lt_of_consumes rfl ht)
    obtain ⟨ls, hrest⟩ := hscan.behind_comment hlt ht
    exact ih hrest
  | @char c s t token rest ih =>
    -- The character starts no literal and no comment, so the scan takes it as one too.
    rw [List.mem_cons, not_or] at token
    rcases hscan.first_token (Nat.lt_succ_of_le (hlength rest)) with ⟨hc, -⟩ | ⟨hc, -⟩ | ⟨-, ls, hrest⟩
    · exact absurd hc token.2
    · exact absurd hc token.1
    · exact ih hrest

/-- A string between three quotes is a literal. -/
theorem stringLiteral_of_tripleQuoted (hq : q ∈ quotes) {m : Forest Rule × List Char}
    (h : (tripleQuoted q).run s = some m) : stringLiteral.run s = some m := by
  rcases List.mem_pair.mp hq with rfl | rfl
  · exact run_orElse.mpr (.inl h)
  · -- The string starts with the one kind of quotes and not with the other.
    obtain ⟨t, g, rfl, -, -⟩ := run_tripleQuoted.mp h
    exact run_orElse.mpr (.inr ⟨run_of_peek_false (by decide) _, run_orElse.mpr (.inl h)⟩)

/-- Texts that are both scanned up to a place, where neither a literal starts nor a line ends, are made
of the same tokens. -/
theorem aligned_of_scans {ls ls' : List (List Char)} {x : List Char}
    (hscan : Scan (x ++ c :: old) (c :: old) ls) (hscan' : Scan (x ++ c :: new) (c :: new) ls')
    (hc : c ∉ lineEnds ++ quotes) : Aligned (c :: old) (c :: new) (x ++ c :: old) (x ++ c :: new) := by
  rw [List.mem_append, not_or] at hc
  refine aligned_of_scan hscan (fun d hd => ?_) (List.cons_ne_nil _ _) (fun b hb q hq hnone => ?_) rfl
  · exact Option.some.inj hd ▸ hc.1
  rw [Option.eq_none_iff_forall_ne_some] at hnone ⊢
  rintro ⟨f, r⟩ hrun
  have hliteral := stringLiteral_of_tripleQuoted hq hrun
  -- The string has not ended at the place yet, or it would start with `c`, which is no quote.
  have hlt : (c :: new).length < (b ++ c :: new).length := by
    rw [List.length_append, Nat.lt_add_left_iff_pos, List.length_pos_iff]
    rintro rfl
    rw [List.nil_append, run_of_peek_false (peek_stringLiteral hc.2)] at hliteral
    simp at hliteral
  obtain ⟨ls, hrest⟩ := hb.scan_rest hscan' (by simp)
  obtain ⟨ls, hbehind⟩ := hrest.behind_literal hlt hliteral
  obtain ⟨z, rfl⟩ := hbehind.exists_text
  -- The string ends before the place, so it does in the other text as well.
  have htext := lossless_run _ _ _ _ hrun
  rw [← List.append_assoc] at htext
  refine hnone (f, z ++ c :: old) ?_
  rw [List.append_cancel_right htext, List.append_assoc]
  exact tripleQuoted_before hq hrun (z ++ c :: old)

/-- Aligned texts are aligned at every place before that a scan comes to. -/
theorem Aligned.split {m : List Char} {ls : List (List Char)} (h : Scan s m ls)
    (hst : Aligned old new s t) (hle : old.length ≤ m.length) :
    ∃ n, Aligned m n s t ∧ Aligned old new m n := by
  induction h generalizing t with
  | nil s => exact ⟨t, .here, hst⟩
  | @literal s t' m f ls token rest ih =>
    obtain ⟨q, hq, a, rfl⟩ := exists_quote_of_stringLiteral token
    cases hst with
    -- The place of `old` is not behind `m`, where the scan is still to go.
    | here =>
      have hlt := length_lt_of_consumes rfl token
      have := rest.length_le
      omega
    | literal hs ht hrest =>
      obtain ⟨rfl, rfl⟩ := Prod.mk.inj (Option.some.inj (token.symm.trans hs))
      obtain ⟨n, hbefore, hbehind⟩ := ih hrest hle
      exact ⟨n, .literal hs ht hbefore, hbehind⟩
    | comment hs _ _ =>
      -- A number sign is no quote.
      obtain ⟨b, hb⟩ := exists_sign_of_comment hs
      obtain ⟨rfl, -⟩ := List.cons.inj hb
      simp [quotes] at hq
    | char hc _ => exact absurd (List.mem_cons_of_mem _ hq) hc
  | @comment s t' m f ls token rest ih =>
    obtain ⟨a, rfl⟩ := exists_sign_of_comment token
    cases hst with
    | here =>
      have hlt := length_lt_of_consumes rfl token
      have := rest.length_le
      omega
    | literal hs _ _ =>
      -- A quote is no number sign.
      obtain ⟨q, hq, b, hb⟩ := exists_quote_of_stringLiteral hs
      obtain ⟨rfl, -⟩ := List.cons.inj hb
      simp [quotes] at hq
    | comment hs ht hrest =>
      obtain ⟨rfl, rfl⟩ := Prod.mk.inj (Option.some.inj (token.symm.trans hs))
      obtain ⟨n, hbefore, hbehind⟩ := ih hrest hle
      exact ⟨n, .comment hs ht hbefore, hbehind⟩
    | char hc _ => simp at hc
  | @char c s m ls token rest ih =>
    cases hst with
    | here =>
      have := rest.length_le
      simp only [List.length_cons] at hle
      omega
    | literal hs _ _ =>
      obtain ⟨q, hq, b, hb⟩ := exists_quote_of_stringLiteral hs
      obtain ⟨rfl, -⟩ := List.cons.inj hb
      exact absurd (List.mem_cons_of_mem _ hq) token
    | comment hs _ _ =>
      obtain ⟨b, hb⟩ := exists_sign_of_comment hs
      obtain ⟨rfl, -⟩ := List.cons.inj hb
      simp at token
    | char hc hrest =>
      obtain ⟨n, hbefore, hbehind⟩ := ih hrest hle
      exact ⟨n, .char hc hbefore, hbehind⟩

end UdfBridge.Source
