import UdfBridge.Proofs.Source.RemovalHeader
import UdfBridge.Proofs.Source.SealedHeader

/-!
# Texts without a character

Where the character that is taken away is a carriage return, it ends a line by itself, so the lines
before a header are not the same in both texts: one text may have a blank line that the other one has
as a part of the line before, or may end before a line does that goes on in the other one. `LineAt`
says what can become of a line. In the first case the blank lines that follow make up for it, and in
the second one no text has a header behind its lead. So the lead and the header of the texts have the
same outlines, or both texts are no definitions (`reading_of_near`).
-/

namespace UdfBridge.Source

open Grammar
open Grammar.Pattern
open Text (isIndent)

variable {x : Removal} {p q : Pattern Rule} {s t : List Char}

/-! ## What opens a text -/

/-- Behind its blanks the text starts with one of `cs`, if it does not end there. -/
def Opens (cs s : List Char) : Prop :=
  ∀ c ∈ (many inlineSpace.run s).2.head?, c ∈ cs

/-- A text that opens with some characters opens with more of them. -/
theorem Opens.mono {cs cs' : List Char} (h : Opens cs s) (hcs : cs ⊆ cs') : Opens cs' s :=
  fun c hc => hcs (h c hc)

/-- A pattern behind blanks does not match if it refuses what opens the text. -/
theorem run_blanks_eq_none {cs : List Char} (h : Opens cs s) (hconsumes : q.consumes = true)
    (hpeek : ∀ c ∈ cs, q.peek c = some false) : (seq (star inlineSpace) q).run s = none := by
  rw [run, run_star]
  simp only [run_eq_none_of_peek hconsumes fun c hc => hpeek c (h c hc), Option.map_none]

/-- A pattern behind blanks only matches if it does not refuse what opens the text. -/
theorem opens_of_run {cs : List Char} {m : Forest Rule × List Char}
    (h : (seq (star inlineSpace) q).run s = some m) (hpeek : ∀ c ∉ cs, q.peek c = some false) :
    Opens cs s := by
  intro c hc
  by_contra hne
  obtain ⟨u, hu⟩ := List.head?_eq_some_iff.mp hc
  obtain ⟨f, r⟩ := m
  obtain ⟨f₁, r₁, f₂, hblanks, hrun, -⟩ := run_seq.mp h
  rw [run_star, Option.some.injEq] at hblanks
  rw [hblanks] at hu
  obtain rfl : r₁ = c :: u := hu
  rw [run_of_peek_false (hpeek c hne)] at hrun
  simp at hrun

/-- The end of a blank line or of a decorator. -/
def lineTail : Pattern Rule :=
  seq (optional comment) lineBreak

/-- The characters at which a blank line goes on behind its indentation. -/
def blankSigns : List Char := ['#', '\n', '\r']

/-- A blank line opens with a comment or with the end of the line. -/
theorem opens_of_blankLine {m : Forest Rule × List Char} (h : blankLine.run s = some m) :
    Opens blankSigns s :=
  opens_of_run (q := lineTail) h fun _ => peek_lineEnd

/-- A decorator opens with its sign. -/
theorem opens_of_decorator {m : Forest Rule × List Char} (h : decorator.run s = some m) :
    Opens ['@'] s := by
  obtain ⟨f, r⟩ := m
  obtain ⟨g, hinner, -⟩ := run_node.mp h
  refine opens_of_run hinner fun c hc => ?_
  have hne : c ≠ '@' := by simpa using hc
  simp [inOrder, peek, chr, hne]

/-- Where a text has only blanks left there is no blank line, for it has no line break. -/
theorem blankLine_of_opens (h : Opens [] s) : blankLine.run s = none :=
  run_blanks_eq_none (q := lineTail) h rfl (by simp)

/-- A line that opens as a blank line does has no decorator. -/
theorem decorator_of_opens (h : Opens blankSigns s) : decorator.run s = none :=
  run_node_eq_none.mpr (run_blanks_eq_none h rfl (by decide))

/-- A line that opens as a blank line or a decorator does has no header. -/
theorem defHeader_of_opens (h : Opens leadSigns s) : defHeader.run s = none :=
  run_node_eq_none.mpr (run_blanks_eq_none (q := headerText) h rfl (by decide))

/-- Where no decorator is, there is none with blank lines behind it. -/
theorem decoratorGroup_of_decorator (h : decorator.run s = none) :
    decoratorGroup.run s = none := by
  rw [decoratorGroup, run, h]

/-- Both texts open with the same character, or with the end of a line. -/
theorem Opens.of_near {cs : List Char} (h : Opens cs s) (hst : x.Near s t) (hcs : lineEnds ⊆ cs) :
    Opens cs t := by
  intro c hc
  cases alike_inlineSpaces s t hst with
  | refused hs _ => simp [run_star] at hs
  | matched f r g u hs ht _ hrest =>
    rw [run_star, Option.some.injEq] at hs ht
    rw [ht] at hc
    unfold Opens at h
    rw [hs] at h
    rcases hrest with hahead | hblocked
    · cases r with
      | nil =>
        rw [Removal.eq_nil_of_ahead hahead] at hc
        simp at hc
      | cons d r =>
        obtain ⟨v, rfl, -⟩ := Removal.exists_of_ahead_cons hahead
        exact h c hc
    · exact hcs ((Removal.atEnd_of_blocked hblocked).2 c hc)

/-! ## The ends of lines -/

/-- What becomes of a step that ends a line. -/
inductive LineAt (x : Removal) (step : Step Rule) (s t : List Char) : Prop where
  /-- Neither text has the line. -/
  | refused (hs : step s = none) (ht : step t = none)
  /-- Both texts have the line, and it is left at the character or before it, or where the same text
  follows when blank lines are passed over. -/
  | matched (f : Forest Rule) (r : List Char) (g : Forest Rule) (u : List Char)
    (hs : step s = some (f, r)) (ht : step t = some (g, u)) (houtline : outline f = outline g)
    (hrest : x.Near r u ∨ (many blankLine.run r).2 = (many blankLine.run u).2)
  /-- The second text ends on the line, and the first one behind it. -/
  | lost (f : Forest Rule) (r : List Char) (hs : step s = some (f, r)) (ht : step t = none)
    (hrest : Opens [] r)

namespace LineAt

variable {P Q : List Char → List Char → Prop}

/-- What is read alike up to the character ends a line alike. -/
theorem of_alikeAt {step : Step Rule} (h : AlikeAt x.Near step s t) : LineAt x step s t := by
  cases h with
  | refused hs ht => exact .refused hs ht
  | matched f r g u hs ht houtline hrest => exact .matched f r g u hs ht houtline (.inl hrest)

/-- A sequence ends a line alike if its first part is read alike and its second part ends a line
alike. -/
theorem seq (hp : Alike P Q p.run) (hq : ∀ s t, Q s t → LineAt x q.run s t) :
    ∀ s t, P s t → LineAt x (seq p q).run s t := by
  intro s t hst
  cases hp s t hst with
  | refused hs ht => exact .refused (by rw [run, hs]) (by rw [run, ht])
  | matched f r g u hs ht houtline hrest =>
    cases hq r u hrest with
    | refused hr hu =>
      exact .refused (by rw [run, hs]; simp only [hr]; rfl) (by rw [run, ht]; simp only [hu]; rfl)
    | matched f' r' g' u' hr hu houtline' hrest' =>
      refine .matched (f ++ f') r' (g ++ g') u' (by rw [run, hs]; simp only [hr]; rfl)
        (by rw [run, ht]; simp only [hu]; rfl) ?_ hrest'
      rw [outline_append, outline_append, houtline, houtline']
    | lost f' r' hr hu hrest' =>
      exact .lost (f ++ f') r' (by rw [run, hs]; simp only [hr]; rfl)
        (by rw [run, ht]; simp only [hu]; rfl) hrest'

/-- A pattern ends a line alike as a node too, if this is no word. -/
theorem node {rule : Rule} (hrule : rule ∉ wordRules) (h : LineAt x p.run s t) :
    LineAt x (node rule p).run s t := by
  cases h with
  | refused hs ht => exact .refused (run_node_eq_none.mpr hs) (run_node_eq_none.mpr ht)
  | matched f r g u hs ht houtline hrest =>
    refine .matched _ r _ u (run_node.mpr ⟨f, hs, rfl⟩) (run_node.mpr ⟨g, ht, rfl⟩) ?_ hrest
    simp only [outline, if_neg hrule, houtline]
  | lost f r hs ht hrest =>
    exact .lost _ r (run_node.mpr ⟨f, hs, rfl⟩) (run_node_eq_none.mpr ht) hrest

end LineAt

/-- The end of a line that starts with a line end. -/
theorem exists_lineTail {c : Char} (hc : c ∈ lineEnds) (s : List Char) :
    ∃ f r, lineTail.run (c :: s) = some (f, r) := by
  have hcomment : (optional comment).run (c :: s) = some (.nil, c :: s) :=
    run_of_peek_true ((by decide : ∀ c ∈ lineEnds, (optional comment).peek c = some true) c hc) s
  have hbreak : ∃ f r, lineBreak.run (c :: s) = some (f, r) := by
    rcases (by simpa [lineEnds] using hc : c = '\n' ∨ c = '\r') with rfl | rfl
    · exact ⟨_, s, rfl⟩
    · cases hpair : (word ['\r', '\n'] : Pattern Rule).run ('\r' :: s) with
      | some m => exact ⟨m.1, m.2, run_orElse.mpr (.inr ⟨rfl, run_orElse.mpr (.inl hpair)⟩)⟩
      | none => exact ⟨_, s, run_orElse.mpr (.inr ⟨rfl, run_orElse.mpr (.inr ⟨hpair, rfl⟩)⟩)⟩
  obtain ⟨f, r, hbreak⟩ := hbreak
  exact ⟨.nil ++ f, r, run_seq.mpr ⟨.nil, c :: s, f, hcomment, hbreak, rfl⟩⟩

/-- Where the texts are held up, the carriage return ends the line by itself. What is left of that
line is blank: one more blank line, or the end of the text. -/
theorem lineAt_lineTail (h : x.Held s t) : LineAt x lineTail.run s t := by
  rcases h with h | ⟨hchar, rfl, rfl⟩
  · have htail : Alike x.Ahead x.Near lineTail.run :=
      (alike_comment.optional fun _ _ => id).seq alike_lineBreak
    exact .of_alikeAt (htail s t h)
  · obtain ⟨hfeed, hend⟩ := Removal.removable_of_return hchar
    -- In the one text the carriage return ends the line, and the blank rest is a line of its own.
    have hs : lineTail.run (x.char :: x.rest) = some (.char '\r' .nil, x.rest) := by
      rw [hchar]
      exact run_seq.mpr ⟨.nil, _, _, rfl, lineBreak_return hfeed, rfl⟩
    have hblanks : (many inlineSpace.run x.rest).2 = x.rest.dropWhile isIndent :=
      many_rest_of_indent (takes_of_isIndent (fun _ => rfl) fun _ => rfl)
        (refusesEnd_inlineSpace _ hend)
    cases hleft : x.rest.dropWhile isIndent with
    | nil =>
      refine .lost _ x.rest hs rfl fun c hc => ?_
      rw [hblanks, hleft] at hc
      simp at hc
    | cons c u =>
      -- What is a blank line of its own in the one text ends the line in the other.
      obtain ⟨g, v, ht⟩ := exists_lineTail (hend c (by rw [hleft]; rfl)) u
      refine .matched _ x.rest g v hs ht ?_ (.inr ?_)
      · rw [outline_run rfl ht]
        rfl
      · have hline : blankLine.run x.rest = some ((many inlineSpace.run x.rest).1 ++ g, v) := by
          refine run_seq.mpr ⟨_, x.rest.dropWhile isIndent, g, ?_, hleft ▸ ht, rfl⟩
          rw [run_star, ← hblanks]
        rw [many_of_some hline (length_lt_of_consumes (p := blankLine) rfl hline)]

/-- A blank line ends alike. -/
theorem lineAt_blankLine : ∀ s t, x.Near s t → LineAt x blankLine.run s t :=
  LineAt.seq alike_inlineSpaces fun _ _ => lineAt_lineTail

/-- A decorator ends its line alike. -/
theorem lineAt_decorator (h : x.Near s t) : LineAt x decorator.run s t := by
  have hsign : Alike x.Held x.Ahead (chr '@' : Pattern Rule).run :=
    (alike_chr (by decide)).of_held (refusesEnd_of_peek rfl (by decide))
  refine LineAt.node (by decide) (LineAt.seq alike_inlineSpaces ?_ s t h)
  exact LineAt.seq hsign (LineAt.seq alike_inlineSpaces_ahead
    (LineAt.seq alike_decoratorExpr fun _ _ => lineAt_lineTail))

/-! ## The lead -/

/-- Behind blank lines the character is ahead or next, or neither text goes on with a decorator or a
header. -/
theorem rest_of_blankLines (h : x.Near s t) :
    x.Near (many blankLine.run s).2 (many blankLine.run t).2 ∨
      (Opens blankSigns (many blankLine.run s).2 ∧ Opens blankSigns (many blankLine.run t).2) := by
  have hconsumes : blankLine.consumes = true := rfl
  induction s using rest_induction hconsumes generalizing t with
  | step s ih =>
    cases lineAt_blankLine s t h with
    | refused hs ht =>
      rw [many_of_none hs, many_of_none ht]
      exact .inl h
    | matched f r g u hs ht houtline hrest =>
      rw [many_of_some hs (length_lt_of_consumes hconsumes hs),
        many_of_some ht (length_lt_of_consumes hconsumes ht)]
      rcases hrest with hnear | hsame
      · exact ih hs hnear
      · rw [hsame]
        exact .inl (.inl (.same _))
    | lost f r hs ht hrest =>
      rw [many_of_some hs (length_lt_of_consumes hconsumes hs),
        many_of_none (blankLine_of_opens hrest), many_of_none ht]
      exact .inr ⟨hrest.mono (by simp), (opens_of_blankLine hs).of_near h (by decide)⟩

/-- No header stands behind the decorators of either text. -/
def Headless (s t : List Char) : Prop :=
  defHeader.run (many decoratorGroup.run s).2 = none ∧
    defHeader.run (many decoratorGroup.run t).2 = none

/-- Where neither a decorator nor a header stands, no header stands behind decorators. -/
theorem defHeader_behind_of_opens (h : Opens blankSigns s) :
    defHeader.run (many decoratorGroup.run s).2 = none := by
  rw [many_of_none (decoratorGroup_of_decorator (decorator_of_opens h))]
  exact defHeader_of_opens (h.mono (by decide))

/-- A decorator takes the blank lines behind it along. -/
theorem run_decoratorGroup {f : Forest Rule} {r : List Char} (h : decorator.run s = some (f, r)) :
    decoratorGroup.run s = some (f ++ (many blankLine.run r).1, (many blankLine.run r).2) :=
  run_seq.mpr ⟨f, r, _, h, run_star, rfl⟩

/-- The decorators with the blank lines behind them have the same outlines. The induction is on the
rests that they leave. -/
theorem alikeAt_decoratorGroups (h : x.Near s t) :
    AlikeAt x.Near (star decoratorGroup).run s t ∨ Headless s t := by
  have hconsumes : decoratorGroup.consumes = true := rfl
  have hshorter : ∀ {s f r}, decoratorGroup.run s = some (f, r) → r.length < s.length :=
    length_lt_of_consumes hconsumes
  induction s using rest_induction hconsumes generalizing t with
  | step s ih =>
    cases lineAt_decorator h with
    | refused hs ht =>
      -- There is no decorator, so the repetition ends in both texts.
      refine .inl (.matched .nil s .nil t ?_ ?_ rfl h)
      · rw [run_star, many_of_none (decoratorGroup_of_decorator hs)]
      · rw [run_star, many_of_none (decoratorGroup_of_decorator ht)]
    | matched f r g u hs ht houtline hrest =>
      have hs := run_decoratorGroup hs
      have ht := run_decoratorGroup ht
      have hrests : x.Near (many blankLine.run r).2 (many blankLine.run u).2 ∨
          (Opens blankSigns (many blankLine.run r).2 ∧
            Opens blankSigns (many blankLine.run u).2) := by
        rcases hrest with hnear | hsame
        · exact rest_of_blankLines hnear
        · rw [hsame]
          exact .inl (.inl (.same _))
      have hmany : ∀ {s f r}, decoratorGroup.run s = some (f, r) →
          many decoratorGroup.run s =
            (f ++ (many decoratorGroup.run r).1, (many decoratorGroup.run r).2) :=
        fun h => many_of_some h (hshorter h)
      unfold Headless
      rw [hmany hs, hmany ht]
      rcases hrests with hnear | ⟨hr, hu⟩
      · rcases ih hs hnear with halike | hheadless
        · refine .inl (halike.prepend (f := f ++ (many blankLine.run r).1)
            (g := g ++ (many blankLine.run u).1) ?_ ?_ ?_)
          · rw [outline_append, outline_append, houtline, outline_many topRules_blankLine,
              outline_many topRules_blankLine]
          · rw [run_star, run_star, hmany hs]
            rfl
          · rw [run_star, run_star, hmany ht]
            rfl
        · exact .inr hheadless
      · exact .inr ⟨defHeader_behind_of_opens hr, defHeader_behind_of_opens hu⟩
    | lost f r hs ht hrest =>
      -- In the other text the decorator is lost, and then no header follows in either.
      have hgroup := run_decoratorGroup hs
      rw [many_of_none (blankLine_of_opens hrest)] at hgroup
      refine .inr ⟨?_, ?_⟩
      · rw [many_of_some hgroup (hshorter hgroup)]
        exact defHeader_behind_of_opens (hrest.mono (by simp))
      · rw [many_of_none (decoratorGroup_of_decorator ht)]
        have hopens : Opens leadSigns s := (opens_of_decorator hs).mono (by decide)
        exact defHeader_of_opens (hopens.of_near h (by decide))

/-! ## Readings -/

/-- What is read of a text up to its body: the outlines of its lead and of its header, and the number
of lines before the header. -/
def reading (s : List Char) : Option (Forest Rule × Forest Rule × Nat) :=
  (leadPattern.run s).bind fun (f, r) =>
    (defHeader.run r).map fun (h, _) => (outline f, outline h, f.text.count '\n')

/-- The lead of both texts has one outline, or no header follows. -/
theorem alikeAt_leadPattern (h : x.Near s t) : AlikeAt x.Near leadPattern.run s t ∨
    ∃ f r g u, leadPattern.run s = some (f, r) ∧ leadPattern.run t = some (g, u) ∧
      defHeader.run r = none ∧ defHeader.run u = none := by
  have hlead : ∀ s, leadPattern.run s = some ((many blankLine.run s).1 ++
      (many decoratorGroup.run (many blankLine.run s).2).1,
        (many decoratorGroup.run (many blankLine.run s).2).2) := fun s =>
    run_seq.mpr ⟨_, _, _, run_star, run_star, rfl⟩
  have hblank : ∀ s, outline (many blankLine.run s).1 = .nil := outline_many topRules_blankLine
  rcases rest_of_blankLines h with hnear | ⟨hs, ht⟩
  · rcases alikeAt_decoratorGroups hnear with halike | ⟨hs, ht⟩
    · refine .inl (halike.prepend ((hblank s).trans (hblank t).symm) ?_ ?_)
      · rw [hlead, run_star]
        rfl
      · rw [hlead, run_star]
        rfl
    · exact .inr ⟨_, _, _, _, hlead s, hlead t, hs, ht⟩
  · exact .inr ⟨_, _, _, _, hlead s, hlead t, defHeader_behind_of_opens hs,
      defHeader_behind_of_opens ht⟩

/-- **A character at the start of a line does not count** for what is read up to the body, if it can
be taken away. -/
theorem reading_of_near (h : x.Near s t) : reading s = reading t := by
  rcases alikeAt_leadPattern h with halike | ⟨f, r, g, u, hs, ht, hr, hu⟩
  · cases halike with
    | refused hs ht => rw [reading, reading, hs, ht]
    | matched f r g u hs ht houtline hrest =>
      simp only [reading, hs, ht, Option.bind_some]
      cases alike_defHeader r u hrest with
      | refused hr hu => rw [hr, hu]; rfl
      | matched f' r' g' u' hr hu houtline' _ =>
        -- The texts have the same number of lines, and so have the rests.
        have hlines : f.text.count '\n' = g.text.count '\n' := by
          have hall := Removal.count_of_near h
          have hrests := Removal.count_of_near hrest
          rw [lossless_run leadPattern _ _ _ hs, lossless_run leadPattern _ _ _ ht,
            List.count_append, List.count_append] at hall
          omega
        rw [hr, hu, Option.map_some, Option.map_some, houtline, houtline', hlines]
  · simp [reading, hs, ht, hr, hu]

end UdfBridge.Source
