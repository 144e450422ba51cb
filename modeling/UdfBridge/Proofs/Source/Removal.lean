import UdfBridge.Proofs.Grammar.First
import UdfBridge.Proofs.Source.LineEnding
import UdfBridge.Proofs.Source.Outline

/-!
# Taking one character away

A `Removal` is a character at the start of a line that does not count for what is read: a space or a
tab, or a carriage return by itself with no more than such characters behind it on its line. How two
texts stand to each other where one of them lacks that character is said by four relations: it is
still ahead or nowhere (`Ahead`), it may be the next one (`Near`), a pattern has stopped at it that
goes on to the end of the line in the other text (`Blocked`), and the first or the third (`Held`).

`Alike P Q step` says that a step on two texts of which `P` holds fails on both of them or matches
on both with one outline, and that `Q` holds of the rests. The lemmas say how patterns put together
behave, for each way to put them together.
-/

namespace UdfBridge.Source

open Grammar
open Grammar.Pattern
open Text (isIndent)

/-- The text is at its end or at that of a line. -/
def AtEnd (s : List Char) : Prop :=
  ∀ c ∈ s.head?, c ∈ lineEnds

/-- A character at the start of a line that can be taken away, and what stands behind it. -/
structure Removal where
  /-- The character. -/
  char : Char
  /-- What stands behind it. -/
  rest : List Char
  /-- A carriage return is neither followed by its line feed nor by content. -/
  removable : isIndent char = true ∨
    (char = '\r' ∧ rest.head? ≠ some '\n' ∧ AtEnd (rest.dropWhile isIndent))

namespace Removal

variable (x : Removal)

/-- The character comes in `s` behind the end of a line, and `t` is `s` without it; or the texts are
the same. -/
inductive Ahead : List Char → List Char → Prop where
  | same (s : List Char) : Ahead s s
  | next : Ahead ('\n' :: x.char :: x.rest) ('\n' :: x.rest)
  | cons (c : Char) {s t : List Char} (h : Ahead s t) : Ahead (c :: s) (c :: t)

/-- The character is the next one. -/
def Here (s t : List Char) : Prop :=
  s = x.char :: x.rest ∧ t = x.rest

/-- The character is ahead or the next one. -/
def Near (s t : List Char) : Prop :=
  x.Ahead s t ∨ x.Here s t

/-- The character is a carriage return and the next one in `s`, while `t` has come to the end of the
line. -/
def Blocked (s t : List Char) : Prop :=
  x.char = '\r' ∧ s = x.char :: x.rest ∧ t = x.rest.dropWhile isIndent

/-- The character is ahead, or the texts are held up at it and at the end of its line. -/
def Held (s t : List Char) : Prop :=
  x.Ahead s t ∨ x.Blocked s t

variable {x} {c : Char} {s t : List Char}

/-- A character that is ahead is near. -/
theorem Ahead.near (h : x.Ahead s t) : x.Near s t := .inl h

/-- Where the character is ahead, no text is held up. -/
theorem Ahead.held (h : x.Ahead s t) : x.Held s t := .inl h

/-- At the end of a text no character is ahead, so the other text is at its end too. -/
theorem eq_nil_of_ahead (h : x.Ahead [] t) : t = [] := by
  cases h
  rfl

/-- The first characters agree, and only a line feed stands before the character. -/
theorem exists_of_ahead_cons (h : x.Ahead (c :: s) t) :
    ∃ u, t = c :: u ∧ x.Near s u ∧ (c ≠ '\n' → x.Ahead s u) := by
  cases h with
  | same => exact ⟨s, rfl, .inl (.same s), fun _ => .same s⟩
  | next => exact ⟨x.rest, rfl, .inr ⟨rfl, rfl⟩, fun hc => absurd rfl hc⟩
  | cons c h => exact ⟨_, rfl, .inl h, fun _ => h⟩

/-- The character is no line feed. -/
theorem char_ne_feed (x : Removal) : x.char ≠ '\n' := by
  rcases x.removable with h | ⟨h, -⟩
  · rintro heq
    rw [heq] at h
    simp [isIndent] at h
  · rw [h]
    decide

/-- Taking the character away takes no line feed away. -/
theorem count_of_ahead (h : x.Ahead s t) : s.count '\n' = t.count '\n' := by
  induction h with
  | same => rfl
  | next => simp [x.char_ne_feed]
  | cons c _ ih => rw [List.count_cons, List.count_cons, ih]

/-- The texts have the same number of lines. -/
theorem count_of_near (h : x.Near s t) : s.count '\n' = t.count '\n' := by
  rcases h with h | ⟨rfl, rfl⟩
  · exact count_of_ahead h
  · simp [x.char_ne_feed]

/-- What stands before the texts as a line or more does not matter. -/
theorem ahead_append_feed (h : x.Near s t) (a : List Char) :
    x.Ahead (a ++ '\n' :: s) (a ++ '\n' :: t) := by
  induction a with
  | nil =>
    rcases h with h | ⟨rfl, rfl⟩
    · exact h.cons _
    · exact .next
  | cons c a ih => exact ih.cons c

/-- A carriage return that can be taken away ends its line by itself, and what is left of the line is
blank. -/
theorem removable_of_return (h : x.char = '\r') :
    x.rest.head? ≠ some '\n' ∧ AtEnd (x.rest.dropWhile isIndent) := by
  refine (x.removable.resolve_left fun hindent => ?_).2
  rw [h] at hindent
  simp [isIndent] at hindent

/-- Texts that are held up are both at the end of a line. -/
theorem atEnd_of_blocked (h : x.Blocked s t) : AtEnd s ∧ AtEnd t := by
  obtain ⟨hc, rfl, rfl⟩ := h
  refine ⟨fun d hd => ?_, (removable_of_return hc).2⟩
  obtain rfl := Option.some.inj hd
  rw [hc]
  decide

end Removal

/-! ## Steps -/

variable {P P' Q Q' R : List Char → List Char → Prop} {step step' : Step Rule} {s t r u : List Char}
  {f g : Forest Rule} {p q : Pattern Rule}

/-- A step fails on both texts, or matches on both with one outline and with rests of which `Q`
holds. -/
inductive AlikeAt (Q : List Char → List Char → Prop) (step : Step Rule) (s t : List Char) :
    Prop where
  | refused (hs : step s = none) (ht : step t = none)
  | matched (f : Forest Rule) (r : List Char) (g : Forest Rule) (u : List Char)
    (hs : step s = some (f, r)) (ht : step t = some (g, u)) (houtline : outline f = outline g)
    (hrest : Q r u)

/-- A step does the same on all texts of which `P` holds, and leaves rests of which `Q` holds. -/
def Alike (P Q : List Char → List Char → Prop) (step : Step Rule) : Prop :=
  ∀ s t, P s t → AlikeAt Q step s t

namespace AlikeAt

/-- What holds of the rests may be widened. -/
theorem mono (h : AlikeAt Q step s t) (hQ : ∀ s t, Q s t → Q' s t) : AlikeAt Q' step s t := by
  cases h with
  | refused hs ht => exact .refused hs ht
  | matched f r g u hs ht houtline hrest => exact .matched f r g u hs ht houtline (hQ _ _ hrest)

/-- On one text a step does the same. -/
theorem refl (hQ : ∀ r, Q r r) (step : Step Rule) (s : List Char) : AlikeAt Q step s s := by
  cases hs : step s with
  | none => exact .refused hs hs
  | some m => exact .matched m.1 m.2 m.1 m.2 hs hs rfl (hQ m.2)

/-- A step that matches something and then does what another step does on the rests. -/
theorem prepend (h : AlikeAt Q step r u) (houtline : outline f = outline g)
    (hs : step' s = (step r).map fun (f', r) => (f ++ f', r))
    (ht : step' t = (step u).map fun (g', u) => (g ++ g', u)) : AlikeAt Q step' s t := by
  cases h with
  | refused hr hu => exact .refused (by rw [hs, hr]; rfl) (by rw [ht, hu]; rfl)
  | matched f' r' g' u' hr hu hinner hrest =>
    refine .matched _ r' _ u' (by rw [hs, hr]; rfl) (by rw [ht, hu]; rfl) ?_ hrest
    rw [outline_append, outline_append, houtline, hinner]

/-- A pattern for one character, at the same character in both texts. -/
theorem one {accepts : Char → Bool} {c : Char} (hQ : accepts c = true → Q s t) :
    AlikeAt Q (one accepts : Pattern Rule).run (c :: s) (c :: t) := by
  cases haccepts : accepts c with
  | false => exact .refused (by simp [run, haccepts]) (by simp [run, haccepts])
  | true =>
    exact .matched _ _ _ _ (run_one.mpr ⟨c, haccepts, rfl, rfl⟩)
      (run_one.mpr ⟨c, haccepts, rfl, rfl⟩) rfl (hQ haccepts)

end AlikeAt

namespace Alike

/-- What is asked of the texts may be narrowed, and what holds of the rests widened. -/
theorem mono (h : Alike P Q step) (hP : ∀ s t, P' s t → P s t) (hQ : ∀ s t, Q s t → Q' s t) :
    Alike P' Q' step :=
  fun s t hst => (h s t (hP s t hst)).mono hQ

/-- What holds of the rests may be widened. -/
theorem rest (h : Alike P Q step) (hQ : ∀ s t, Q s t → Q' s t) : Alike P Q' step :=
  h.mono (fun _ _ => id) hQ

/-- A sequence is read alike if both of its parts are. -/
theorem seq (hp : Alike P Q p.run) (hq : Alike Q R q.run) :
    Alike P R (seq p q).run := by
  intro s t hst
  cases hp s t hst with
  | refused hs ht => exact .refused (by rw [run, hs]) (by rw [run, ht])
  | matched f r g u hs ht houtline hrest =>
    exact (hq r u hrest).prepend houtline (by rw [run, hs]) (by rw [run, ht])

/-- A choice is read alike if both of its patterns are. -/
theorem orElse (hp : Alike P Q p.run) (hq : Alike P Q q.run) :
    Alike P Q (orElse p q).run := by
  intro s t hst
  cases hp s t hst with
  | refused hs ht =>
    cases hq s t hst with
    | refused hs' ht' => exact .refused (by rw [run, hs, hs']) (by rw [run, ht, ht'])
    | matched f r g u hs' ht' houtline hrest =>
      exact .matched f r g u (by rw [run, hs, hs']) (by rw [run, ht, ht']) houtline hrest
  | matched f r g u hs ht houtline hrest =>
    exact .matched f r g u (by rw [run, hs]) (by rw [run, ht]) houtline hrest

/-- Nothing is read alike. -/
theorem empty (hQ : ∀ s t, P s t → Q s t) : Alike P Q (empty : Pattern Rule).run :=
  fun s t hst => .matched .nil s .nil t rfl rfl rfl (hQ s t hst)

/-- What may be left out is read alike if it is. -/
theorem optional (hp : Alike P Q p.run) (hQ : ∀ s t, P s t → Q s t) :
    Alike P Q (optional p).run :=
  hp.orElse (.empty hQ)

/-- What must not stand ahead is looked for alike. -/
theorem notAhead (hp : Alike P Q p.run) : Alike P P (notAhead p).run := by
  intro s t hst
  cases hp s t hst with
  | refused hs ht => exact .matched .nil s .nil t (by rw [run, hs]) (by rw [run, ht]) rfl hst
  | matched f r g u hs ht _ _ => exact .refused (by rw [run, hs]) (by rw [run, ht])

/-- A pattern is read alike as a node too, if this is no word. -/
theorem node {rule : Rule} (hp : Alike P Q p.run) (hrule : rule ∉ wordRules) :
    Alike P Q (node rule p).run := by
  intro s t hst
  cases hp s t hst with
  | refused hs ht => exact .refused (by rw [run, hs]; rfl) (by rw [run, ht]; rfl)
  | matched f r g u hs ht houtline hrest =>
    refine .matched _ r _ u (by rw [run, hs]; rfl) (by rw [run, ht]; rfl) ?_ hrest
    simp only [outline, if_neg hrule, houtline]

/-- A repetition whose steps keep `P`, until the rests are read alike for another reason. The
induction is on the rests that the matches leave. -/
theorem star_of (hp : Alike P R p.run) (hconsumes : p.consumes = true) (hQ : ∀ s t, P s t → Q s t)
    (hR : ∀ s t, R s t → P s t ∨ AlikeAt Q (star p).run s t) : Alike P Q (star p).run := by
  have hstar : ∀ {s f r}, p.run s = some (f, r) → (Pattern.star p).run s =
      ((Pattern.star p).run r).map fun m => (f ++ m.1, m.2) := run_star_of_some hconsumes
  intro s
  induction s using rest_induction hconsumes with
  | step s ih =>
    intro t hst
    cases hp s t hst with
    | refused hs ht =>
      exact .matched .nil s .nil t (by rw [run_star, many_of_none hs])
        (by rw [run_star, many_of_none ht]) rfl (hQ s t hst)
    | matched f r g u hs ht houtline hrest =>
      have hrests : AlikeAt Q (Pattern.star p).run r u := (hR r u hrest).elim (ih hs u) id
      exact hrests.prepend houtline (hstar hs) (hstar ht)

/-- A repetition is read alike if each of its matches is. -/
theorem star (hp : Alike P P p.run) (hconsumes : p.consumes = true) : Alike P P (star p).run :=
  hp.star_of hconsumes (fun _ _ => id) fun _ _ => .inl

end Alike

/-! ## Steps up to the character -/

variable {x : Removal}

/-- One character is read alike where the character to take away is ahead. Only behind a line feed
that one may be the next. -/
theorem alikeAt_one {accepts : Char → Bool} (hst : x.Ahead s t)
    (hQ : ∀ c s u, accepts c = true → x.Near s u → (c ≠ '\n' → x.Ahead s u) → Q s u) :
    AlikeAt Q (one accepts : Pattern Rule).run s t := by
  cases s with
  | nil =>
    obtain rfl := Removal.eq_nil_of_ahead hst
    exact .refused rfl rfl
  | cons c s =>
    obtain ⟨u, rfl, hnear, hahead⟩ := Removal.exists_of_ahead_cons hst
    exact .one fun haccepts => hQ c s u haccepts hnear hahead

/-- One character is read alike, and leaves the character near. -/
theorem alike_one (accepts : Char → Bool) :
    Alike x.Ahead x.Near (one accepts : Pattern Rule).run :=
  fun _ _ hst => alikeAt_one hst fun _ _ _ _ hnear _ => hnear

/-- Where line feeds are not accepted, the character is still ahead. -/
theorem alike_one_of {accepts : Char → Bool} (h : accepts '\n' = false) :
    Alike x.Ahead x.Ahead (one accepts : Pattern Rule).run := by
  refine fun s t hst => alikeAt_one hst fun c s u haccepts _ hahead => hahead ?_
  rintro rfl
  simp [h] at haccepts

/-- A given character other than a line feed is read alike, and leaves the character ahead. -/
theorem alike_chr {c : Char} (hc : c ≠ '\n') :
    Alike x.Ahead x.Ahead (chr c : Pattern Rule).run :=
  alike_one_of (by simpa using hc.symm)

/-- A word on one line. -/
theorem alike_word {cs : List Char} (h : '\n' ∉ cs) :
    Alike x.Ahead x.Ahead (word cs : Pattern Rule).run := by
  induction cs with
  | nil => exact .empty fun _ _ => id
  | cons c cs ih =>
    rw [List.mem_cons, not_or] at h
    cases cs with
    | nil => exact alike_chr (Ne.symm h.1)
    | cons d cs => exact (alike_chr (Ne.symm h.1)).seq (ih h.2)

/-- A word is matched by itself. -/
theorem forest_of_word {cs : List Char} (h : (word cs).run s = some (f, r)) :
    f = plainForest cs := by
  induction cs generalizing s f r with
  | nil => exact (run_empty.mp h).1
  | cons c cs ih =>
    cases cs with
    | nil => exact (run_chr.mp h).2
    | cons d cs =>
      obtain ⟨f₁, r₁, f₂, hc, hcs, rfl⟩ := run_seq.mp h
      rw [(run_chr.mp hc).2, ih hcs]
      rfl

/-! ## Steps at the character -/

/-- The pattern takes the character by itself. -/
def Takes (p : Pattern Rule) (c : Char) : Prop :=
  ∀ s, p.run (c :: s) = some (.char c .nil, s)

/-- The pattern does not match at the end of a line. -/
def RefusesEnd (p : Pattern Rule) : Prop :=
  ∀ s, AtEnd s → p.run s = none

/-- A pattern that consumes does not match where it refuses the next character, if there is one. -/
theorem run_eq_none_of_peek (hconsumes : p.consumes = true)
    (hpeek : ∀ c ∈ s.head?, p.peek c = some false) : p.run s = none := by
  cases s with
  | nil =>
    by_contra hne
    obtain ⟨⟨f, r⟩, hrun⟩ := Option.ne_none_iff_exists'.mp hne
    exact absurd (length_lt_of_consumes hconsumes hrun) (Nat.not_lt_zero _)
  | cons c s => exact run_of_peek_false (hpeek c rfl) s

/-- What starts with no sign of a line end does not match at the end of a line. -/
theorem refusesEnd_of_peek (hconsumes : p.consumes = true)
    (hpeek : ∀ c ∈ lineEnds, p.peek c = some false) : RefusesEnd p :=
  fun _ hs => run_eq_none_of_peek hconsumes fun c hc => hpeek c (hs c hc)

/-- A repetition of what takes spaces and tabs takes all that the text starts with. -/
theorem many_rest_of_indent (hindent : ∀ c, isIndent c = true → Takes p c)
    (hend : p.run (s.dropWhile isIndent) = none) : (many p.run s).2 = s.dropWhile isIndent := by
  conv_lhs => rw [← List.takeWhile_append_dropWhile (p := isIndent) (l := s)]
  rw [many_rest_of_chars fun c hc => hindent c (List.mem_takeWhile_imp hc), many_of_none hend]

namespace AlikeAt

/-- A repetition that takes the character goes on with the same text. -/
theorem star_here (h : p.run (x.char :: x.rest) = some (.char x.char .nil, x.rest)) :
    AlikeAt x.Ahead (star p).run (x.char :: x.rest) x.rest := by
  have hmany := many_of_some h (by simp)
  refine .matched _ _ (many p.run x.rest).1 (many p.run x.rest).2 (by rw [run_star, hmany])
    run_star ?_ (.same _)
  rw [outline_append]
  rfl

/-- A repetition of what takes spaces and tabs and does not match at the end of a line takes the
character too, or else is held up at it. -/
theorem star_here_held (hindent : ∀ c, isIndent c = true → Takes p c) (hend : RefusesEnd p)
    (hrules : p.topRules = []) : AlikeAt x.Held (star p).run (x.char :: x.rest) x.rest := by
  rcases x.removable with hchar | ⟨hchar, -, hrest⟩
  · exact (star_here (hindent _ hchar _)).mono fun _ _ => Removal.Ahead.held
  · have hnodes : ∀ s, outline (many p.run s).1 = .nil := fun s =>
      outline_eq_nil (List.subset_nil.mp (hrules ▸ topRules_run (star p) s _ _ run_star))
    have hstop : p.run (x.char :: x.rest) = none := hend _ fun c hc => by
      rw [← Option.some.inj hc, hchar]
      decide
    refine .matched _ _ _ _ run_star run_star
      ((outline_many hrules _).trans (outline_many hrules _).symm) ?_
    rw [many_of_none hstop, many_rest_of_indent hindent (hend _ hrest)]
    exact .inr ⟨hchar, rfl, rfl⟩

end AlikeAt

namespace Alike

/-- What is said of texts with the character next holds where it is ahead. -/
theorem ahead (h : Alike x.Near Q step) : Alike x.Ahead Q step :=
  h.mono (fun _ _ => Removal.Ahead.near) fun _ _ => id

/-- The character is near if it is ahead. -/
theorem near (h : Alike P x.Ahead step) : Alike P x.Near step :=
  h.rest fun _ _ => Removal.Ahead.near

/-- A repetition that goes over line feeds, if it does the same with the character and without. -/
theorem star_near (hp : Alike x.Ahead x.Near p.run) (hconsumes : p.consumes = true)
    (hQ : ∀ s t, x.Ahead s t → Q s t)
    (hhere : AlikeAt Q (Pattern.star p).run (x.char :: x.rest) x.rest) :
    Alike x.Near Q (Pattern.star p).run := by
  have hrests : ∀ s t, x.Near s t → x.Ahead s t ∨ AlikeAt Q (Pattern.star p).run s t := by
    rintro s t (h | ⟨rfl, rfl⟩)
    · exact .inl h
    · exact .inr hhere
  intro s t hst
  exact (hrests s t hst).elim (hp.star_of hconsumes hQ hrests s t) id

/-- What does not match at the end of a line does not match where texts are held up. -/
theorem of_held (hp : Alike x.Ahead Q p.run) (hend : RefusesEnd p) : Alike x.Held Q p.run := by
  rintro s t (h | h)
  · exact hp s t h
  · obtain ⟨hs, ht⟩ := Removal.atEnd_of_blocked h
    exact .refused (hend s hs) (hend t ht)

/-- What matches nothing at the end of a line leaves the texts held up. -/
theorem held (hp : Alike x.Ahead x.Held p.run) (hend : ∀ s, AtEnd s → p.run s = some (.nil, s)) :
    Alike x.Held x.Held p.run := by
  rintro s t (h | h)
  · exact hp s t h
  · obtain ⟨hs, ht⟩ := Removal.atEnd_of_blocked h
    exact .matched .nil s .nil t (hend s hs) (hend t ht) rfl (.inr h)

/-- The groups that pieces make up. No group ends with a line feed, so behind one the character is
still ahead. -/
theorem closeGroups {leaf : Pattern Rule} (hleaf : Alike x.Ahead x.Near leaf.run)
    (hconsumes : leaf.consumes = true) (hhere : Takes leaf x.char) (hchar : x.char ∉ brackets)
    {ws : List Char} (hws : ∀ w ∈ ws, w ∈ closers) :
    Alike x.Ahead x.Ahead (closeGroups leaf.run ws) := by
  have hcloser : ∀ w ∈ closers, w ≠ '\n' ∧ w ∈ brackets := by decide
  intro s t hst
  fun_induction Grammar.closeGroups leaf.run ws s generalizing t with
  | case1 s =>
    have hclosed : ∀ t, Grammar.closeGroups leaf.run [] t = some (.nil, t) := fun t => by
      rw [Grammar.closeGroups]
    exact .matched .nil s .nil t (hclosed s) (hclosed t) rfl hst
  | case2 w ws =>
    -- A group is open and the text ends, so does the other one.
    obtain rfl := Removal.eq_nil_of_ahead hst
    exact .refused (by rw [Grammar.closeGroups]) (by rw [Grammar.closeGroups])
  | case3 ws w s ih =>
    obtain ⟨u, rfl, -, hahead⟩ := Removal.exists_of_ahead_cons hst
    have hfeed := (hcloser w (hws w List.mem_cons_self)).1
    exact (ih (fun w hw => hws w (List.mem_cons_of_mem _ hw)) u (hahead hfeed)).prepend
      (f := .char w .nil) rfl (closeGroups_close leaf.run w ws s) (closeGroups_close leaf.run w ws u)
  | case4 w ws c s hne v hopen ih =>
    obtain ⟨u, rfl, -, hahead⟩ := Removal.exists_of_ahead_cons hst
    have hfeed := (not_mem_of_closer? hopen).1
    exact (ih (List.forall_mem_cons.mpr ⟨(closer?_eq_some hopen).2, hws⟩) u (hahead hfeed)).prepend
      (f := .char c .nil) rfl (closeGroups_open hne hopen s) (closeGroups_open hne hopen u)
  | case5 w ws c s hne hopen hnone =>
    obtain ⟨u, rfl, -, -⟩ := Removal.exists_of_ahead_cons hst
    cases hleaf _ _ hst with
    | refused _ ht =>
      exact .refused (closeGroups_of_none hne hopen hnone) (closeGroups_of_none hne hopen ht)
    | matched f r g u hs _ _ _ => simp [hnone] at hs
  | case6 w ws c s hne hopen f r hpiece hlt ih =>
    -- The piece is no bracket, so the leaf reads one in the other text too.
    obtain ⟨u, rfl, -, -⟩ := Removal.exists_of_ahead_cons hst
    cases hleaf _ _ hst with
    | refused hs _ => simp [hpiece] at hs
    | matched f' r' g v hs ht houtline hrest =>
      obtain ⟨rfl, rfl⟩ := Prod.mk.inj (Option.some.inj (hpiece.symm.trans hs))
      have hrests : AlikeAt x.Ahead (Grammar.closeGroups leaf.run (w :: ws)) r v := by
        rcases hrest with hahead | ⟨rfl, rfl⟩
        · exact ih hws v hahead
        · -- The character is one more piece.
          have hw := (hcloser w (hws w List.mem_cons_self)).2
          have hne : x.char ≠ w := fun heq => hchar (heq ▸ hw)
          have hnone : closer? x.char = none := by
            by_contra hsome
            obtain ⟨v, hv⟩ := Option.ne_none_iff_exists'.mp hsome
            have hopener := (closer?_eq_some hv).1
            exact hchar ((by decide : ['(', '[', '\x7b'] ⊆ brackets) hopener)
          have hstep := closeGroups_leaf ws hne hnone (hhere x.rest) (by simp)
          exact (AlikeAt.refl .same _ x.rest).prepend (f := .char x.char .nil) (g := .nil) rfl hstep
            (by simp)
      exact hrests.prepend houtline (closeGroups_leaf ws hne hopen hpiece hlt)
        (closeGroups_leaf ws hne hopen ht (length_lt_of_consumes hconsumes ht))
  | case7 w ws c s hne hopen f r hpiece hlt =>
    exact absurd (length_lt_of_consumes hconsumes hpiece) hlt

/-- Groups are read alike if their leaves are, and if the character is a leaf. -/
theorem balanced {leaf : Pattern Rule} (hleaf : Alike x.Ahead x.Near leaf.run)
    (hconsumes : leaf.consumes = true) (hhere : Takes leaf x.char) (hchar : x.char ∉ brackets) :
    Alike x.Ahead x.Ahead (balanced leaf).run := by
  intro s t hst
  cases s with
  | nil =>
    obtain rfl := Removal.eq_nil_of_ahead hst
    exact .refused rfl rfl
  | cons c s =>
    obtain ⟨u, rfl, -, hahead⟩ := Removal.exists_of_ahead_cons hst
    cases hopen : closer? c with
    | none => exact .refused (by rw [run, group, hopen]) (by rw [run, group, hopen])
    | some w =>
      have hinner := closeGroups hleaf hconsumes hhere hchar
        (List.forall_mem_singleton.mpr (closer?_eq_some hopen).2) s u
        (hahead (not_mem_of_closer? hopen).1)
      exact hinner.prepend (f := .char c .nil) rfl (by rw [run, group, hopen]; rfl)
        (by rw [run, group, hopen]; rfl)

end Alike

end UdfBridge.Source
