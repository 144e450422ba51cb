import UdfBridge.Proofs.Source.Scan
import UdfBridge.Proofs.Text.Crlf

/-!
# Matching with other line endings

A pattern follows a text when the match of `crlf s` is that of `s` with a carriage return before
every line feed, and there is none where `s` has none. String literals may keep a pattern from that:
`Follows p P` says that `p` follows every text without carriage returns, unless the match reads over
a literal that goes over the end of a line in one pair of quotes, and that `P` holds of the rest
that is left of `crlf s` then. So `Follows p Never` stands for a pattern that reads over no
literals, and `Follows p Fails` for one that does not match when it reads over such a literal.

Patterns are not taken back, so a repetition may stop before a literal that it does not get over,
and an optional part may be left out. What matters then is that all that follows gets stuck at the
same place: it refuses the character there, or passes over it.
-/

namespace UdfBridge.Grammar

/-- The forest with a carriage return before every line feed. -/
def Forest.crlf {ρ : Type} : Forest ρ → Forest ρ
  | nil => nil
  | char c next => if c = '\n' then char '\r' (char '\n' next.crlf) else char c next.crlf
  | node rule inner next => node rule inner.crlf next.crlf

/-- The line feeds of two forests get their carriage returns in each of them. -/
@[simp] theorem Forest.crlf_append {ρ : Type} (f g : Forest ρ) :
    (f ++ g).crlf = f.crlf ++ g.crlf := by
  induction f with
  | nil => rfl
  | char c next ih =>
    rw [char_append, crlf, crlf, ih]
    split <;> rfl
  | node rule inner next _ ih => rw [node_append, crlf, crlf, ih, node_append]

/-- The text of a forest gets its carriage returns in the forest. -/
@[simp] theorem Forest.text_crlf {ρ : Type} (f : Forest ρ) : f.crlf.text = Text.crlf f.text := by
  induction f with
  | nil => rfl
  | char c next ih =>
    rw [crlf, text]
    split
    · rename_i hc
      rw [hc, Text.crlf_feed, text, text, ih]
    · rename_i hc
      rw [Text.crlf_cons hc, text, ih]
  | node rule inner next ihi ih => rw [crlf, text, text, Text.crlf_append, ihi, ih]

end UdfBridge.Grammar

namespace UdfBridge.Source

open Grammar
open Grammar.Pattern
open Text (crlf)

variable {p q : Pattern Rule} {step step' : Step Rule} {P Q R : Option (List Char) → Prop}
  {B : List Char → Prop} {s r u : List Char} {f : Forest Rule} {ls : List (List Char)}

/-! ## Following a text -/

/-- What a step leaves of a text. -/
def restOf (step : Step Rule) (s : List Char) : Option (List Char) :=
  (step s).map Prod.snd

/-- The step does what it does to `s` to the text with other line endings, or `P` holds of what it
leaves of that text because it reads over a literal that goes over the end of a line. -/
def FollowsAt (step : Step Rule) (P : Option (List Char) → Prop) (s : List Char) : Prop :=
  (step s = none → step (crlf s) = none) ∧
    ∀ f r, step s = some (f, r) → ∃ ls, Scan s r ls ∧
      ((¬ HasContinued ls ∧ step (crlf s) = some (f.crlf, crlf r)) ∨
        (HasContinued ls ∧ P (restOf step (crlf s))))

/-- The pattern follows every text without carriage returns, up to literals that go over the end of
a line. -/
def Follows (p : Pattern Rule) (P : Option (List Char) → Prop) : Prop :=
  ∀ s, '\r' ∉ s → FollowsAt p.run P s

/-- It does not come to that. -/
def Never (_ : Option (List Char)) : Prop := False

/-- There is no match. -/
def Fails (m : Option (List Char)) : Prop := m = none

/-- There is no match, or one that leaves a text of `B`. -/
def Blocks (B : List Char → Prop) (m : Option (List Char)) : Prop := ∀ r, m = some r → B r

/-- There is a match, and it leaves a text of `B`. -/
def Stops (B : List Char → Prop) (m : Option (List Char)) : Prop := ∃ r, m = some r ∧ B r

/-- The text starts with one of the characters. -/
def StartsIn (cs : List Char) (s : List Char) : Prop := ∃ c ∈ cs, ∃ t, s = c :: t

/-- A pattern that no character of `cs` starts is refused where one of them stands. -/
theorem StartsIn.refused {cs : List Char} (hq : ∀ c ∈ cs, q.peek c = some false)
    (hs : StartsIn cs s) : q.run s = none := by
  obtain ⟨c, hc, t, rfl⟩ := hs
  exact run_of_peek_false (hq c hc) t

/-- A text that starts with a character other than a line feed starts with it with other line
endings. -/
theorem StartsIn.crlf {cs : List Char} (hcs : '\n' ∉ cs) (h : StartsIn cs s) :
    StartsIn cs (crlf s) := by
  obtain ⟨c, hc, t, rfl⟩ := h
  exact ⟨c, hc, Text.crlf t, Text.crlf_cons (fun e => hcs (e ▸ hc)) t⟩

/-- What a match leaves has no other characters. -/
theorem not_mem_rest {c : Char} (hs : c ∉ s) (h : p.run s = some (f, r)) : c ∉ r := by
  rw [lossless_run p s f r h, List.mem_append, not_or] at hs
  exact hs.2

/-- A text that starts with one of some characters starts with one of more characters. -/
theorem StartsIn.mono {cs cs' : List Char} (h : StartsIn cs s) (hcs : cs ⊆ cs') :
    StartsIn cs' s := by
  obtain ⟨c, hc, t, rfl⟩ := h
  exact ⟨c, hcs hc, t, rfl⟩

/-- A pattern that stops, stops or fails. -/
theorem Stops.blocks {m : Option (List Char)} (h : Stops B m) : Blocks B m := by
  obtain ⟨r, rfl, hr⟩ := h
  exact fun t ht => Option.some.inj ht ▸ hr

/-- Where nothing matches, nothing but texts of `B` is left. -/
theorem Fails.blocks {m : Option (List Char)} (h : Fails m) : Blocks B m := by
  intro r hr
  rw [h] at hr
  simp at hr

/-- What a step may come to at a continued literal may be widened. -/
theorem FollowsAt.mono (hstep : FollowsAt step P s) (h : ∀ m, P m → Q m) : FollowsAt step Q s := by
  refine ⟨hstep.1, fun f r hrun => ?_⟩
  obtain ⟨ls, hscan, hcases⟩ := hstep.2 f r hrun
  exact ⟨ls, hscan, hcases.imp_right fun hbreak => ⟨hbreak.1, h _ hbreak.2⟩⟩

/-- What a pattern may come to at a continued literal may be widened. -/
theorem Follows.mono (hp : Follows p P) (h : ∀ m, P m → Q m) : Follows p Q :=
  fun s hs => (hp s hs).mono h

/-- A pattern that follows every text follows it whatever is asked for at literals. -/
theorem Follows.of_never (hp : Follows p Never) : Follows p P :=
  hp.mono fun _ h => h.elim

/-! ## Steps -/

/-- A step that is refused on both texts follows. -/
theorem FollowsAt.of_none (h : step s = none) (hcrlf : step (crlf s) = none) :
    FollowsAt step P s :=
  ⟨fun _ => hcrlf, fun f r hrun => by simp [h] at hrun⟩

/-- A step that matches alike on both texts follows, if it reads over no continued literal. -/
theorem FollowsAt.of_some (h : step s = some (f, r)) (hcrlf : step (crlf s) = some (f.crlf, crlf r))
    (hscan : Scan s r ls) (hnot : ¬ HasContinued ls) : FollowsAt step P s := by
  refine ⟨fun hnone => by simp [h] at hnone, fun f' r' hrun => ?_⟩
  obtain ⟨rfl, rfl⟩ := Prod.mk.inj (Option.some.inj (h.symm.trans hrun))
  exact ⟨ls, hscan, .inl ⟨hnot, hcrlf⟩⟩

/-- A step that reads more than `step'` in front, without a literal that goes over the end of a
line. -/
theorem FollowsAt.read (h : FollowsAt step' P u) (hscan : Scan s u ls) (hnot : ¬ HasContinued ls)
    (hstep : step s = (step' u).map fun (g, t) => (f ++ g, t))
    (hcrlf : step (crlf s) = (step' (crlf u)).map fun (g, t) => (f.crlf ++ g, t)) :
    FollowsAt step P s := by
  have hrest : restOf step (crlf s) = restOf step' (crlf u) := by
    rw [restOf, hcrlf, Option.map_map]
    rfl
  unfold FollowsAt
  rw [hrest, hstep, hcrlf]
  refine ⟨fun hnone => ?_, fun f' r hsome => ?_⟩
  · -- The step reads the same piece first in both texts, so it fails where the rest does.
    rw [Option.map_eq_none_iff] at hnone ⊢
    exact h.1 hnone
  · obtain ⟨⟨g, t⟩, hg, heq⟩ := Option.map_eq_some_iff.mp hsome
    obtain ⟨rfl, rfl⟩ := Prod.mk.inj heq
    obtain ⟨ls', hscan', hcases⟩ := h.2 g t hg
    refine ⟨ls ++ ls', hscan.trans hscan', ?_⟩
    rw [hasContinued_append]
    refine hcases.imp (fun h => ⟨by simp [hnot, h.1], ?_⟩) fun h => ⟨.inr h.1, h.2⟩
    rw [h.2]
    simp

/-- A step that reads such a literal in front. -/
theorem FollowsAt.of_hasContinued (h : FollowsAt step' Q u) (hscan : Scan s u ls)
    (hcontinued : HasContinued ls) (hstep : step s = (step' u).map fun (g, t) => (f ++ g, t))
    (hnone : step' u = none → step (crlf s) = none) (hP : P (restOf step (crlf s))) :
    FollowsAt step P s := by
  refine ⟨fun h => hnone ?_, fun f' r hsome => ?_⟩
  · rwa [hstep, Option.map_eq_none_iff] at h
  · rw [hstep] at hsome
    obtain ⟨⟨g, t⟩, hg, heq⟩ := Option.map_eq_some_iff.mp hsome
    obtain ⟨-, rfl⟩ := Prod.mk.inj heq
    obtain ⟨ls', hscan', -⟩ := h.2 g t hg
    exact ⟨ls ++ ls', hscan.trans hscan', .inr ⟨hasContinued_append.mpr (.inl hcontinued), hP⟩⟩

/-- A step that reads one character more than `step'`. -/
theorem FollowsAt.char {c : Char} (h : FollowsAt step' P s) (hfeed : c ≠ '\n')
    (htoken : c ∉ '#' :: quotes)
    (hstep : ∀ t, step (c :: t) = (step' t).map fun (f, r) => (.char c f, r)) :
    FollowsAt step P (c :: s) := by
  refine h.read (f := .char c .nil) (.char htoken (.nil s)) not_hasContinued_nil (hstep s) ?_
  rw [Text.crlf_cons hfeed, hstep, Forest.crlf, if_neg hfeed]
  rfl

/-! ## Sequences -/

/-- A sequence leaves what its second part leaves of what the first one leaves. -/
theorem restOf_seq (p q : Pattern Rule) (s : List Char) :
    restOf (seq p q).run s = (restOf p.run s).bind (restOf q.run) := by
  unfold restOf
  rw [run]
  cases p.run s with
  | none => rfl
  | some m => cases hq : q.run m.2 <;> simp [hq]

/-- A sequence whose first part matches goes on with its second part behind it. -/
theorem run_seq_of_some (h : p.run s = some (f, r)) :
    (seq p q).run s = (q.run r).map fun (g, t) => (f ++ g, t) := by
  rw [run, h]

/-- A sequence follows a text if both patterns do. Where a literal keeps the first one from it, the
second one has to fail, if it can. -/
theorem FollowsAt.seq (hp : FollowsAt p.run P s)
    (hq : ∀ f r, p.run s = some (f, r) → FollowsAt q.run Q r)
    (hnone : q.isTotal = true ∨ ∀ m, P m → m.bind (restOf q.run) = none)
    (hPR : ∀ m, P m → R (m.bind (restOf q.run))) (hQR : ∀ m, Q m → R m) :
    FollowsAt (seq p q).run R s := by
  cases hfirst : p.run s with
  | none => exact .of_none (by rw [run, hfirst]) (by rw [run, hp.1 hfirst])
  | some m =>
    obtain ⟨f, r⟩ := m
    have hsecond := hq f r hfirst
    obtain ⟨ls, hscan, ⟨hnot, hcrlf⟩ | ⟨hcontinued, hP⟩⟩ := hp.2 f r hfirst
    · exact (hsecond.read hscan hnot (run_seq_of_some hfirst) (run_seq_of_some hcrlf)).mono hQR
    · -- A literal is continued over a line in the first part, so that one has stopped in the other
      -- text.
      refine hsecond.of_hasContinued hscan hcontinued (run_seq_of_some hfirst) (fun hrun => ?_) ?_
      · -- The second pattern does not match here, so it is not total.
        have hrest : restOf (Pattern.seq p q).run (crlf s) = none := by
          rw [restOf_seq]
          refine hnone.resolve_left (fun htotal => ?_) _ hP
          obtain ⟨f', r', hsome⟩ := exists_run_of_isTotal htotal r
          simp [hrun] at hsome
        simpa [restOf] using hrest
      · rw [restOf_seq]
        exact hPR _ hP

/-- Behind a pattern that follows every text. -/
theorem Follows.seq_never (hp : Follows p Never) (hq : Follows q P) : Follows (seq p q) P :=
  fun s hs => (hp s hs).seq (fun _ _ h => hq _ (not_mem_rest hs h)) (.inr fun _ h => h.elim)
    (fun _ h => h.elim) fun _ h => h

/-- Behind a pattern that stops at characters where the next one fails. -/
theorem Follows.seq_refused (hp : Follows p (Blocks B)) (hq : Follows q Fails)
    (hrefused : ∀ s, B s → q.run s = none) : Follows (seq p q) Fails := by
  have hnone : ∀ m, Blocks B m → m.bind (restOf q.run) = none := by
    intro m hm
    cases m with
    | none => rfl
    | some r => simp [restOf, hrefused r (hm r rfl)]
  exact fun s hs => (hp s hs).seq (fun _ _ h => hq _ (not_mem_rest hs h)) (.inr hnone) hnone
    fun _ h => h

/-- Behind a pattern that stops at characters over which the next one passes. -/
theorem Follows.seq_passed {cs cs' : List Char} (hp : Follows p (Stops (StartsIn cs)))
    (hq : Follows q (Stops (StartsIn cs'))) (htotal : q.isTotal = true) (hcs : cs ⊆ cs')
    (hpassed : ∀ c ∈ cs, q.peek c = some true) : Follows (seq p q) (Stops (StartsIn cs')) := by
  refine fun s hs => (hp s hs).seq (fun _ _ h => hq _ (not_mem_rest hs h)) (.inl htotal) ?_
    fun _ h => h
  rintro _ ⟨_, rfl, c, hc, t, rfl⟩
  refine ⟨c :: t, ?_, c, hcs hc, t, rfl⟩
  rw [Option.bind_some, restOf, run_of_peek_true (hpassed c hc)]
  rfl

/-- Behind a pattern that fails. -/
theorem Follows.seq_fails (hp : Follows p Fails) (hq : Follows q Fails) :
    Follows (Pattern.seq p q) Fails :=
  (hp.mono fun _ h => h.blocks).seq_refused (B := fun _ => False) hq fun _ h => h.elim

/-! ## Choices -/

/-- A choice leaves what its first pattern leaves, or else its second one. -/
theorem restOf_orElse (p q : Pattern Rule) (s : List Char) :
    restOf (orElse p q).run s = (restOf p.run s).or (restOf q.run s) := by
  unfold restOf
  rw [run]
  cases p.run s <;> rfl

/-- A choice follows a text if both patterns do. -/
theorem FollowsAt.orElse (hp : FollowsAt p.run P s) (hq : FollowsAt q.run Q s)
    (hPR : ∀ f r, p.run s = some (f, r) → P (restOf p.run (crlf s)) →
      R ((restOf p.run (crlf s)).or (restOf q.run (crlf s))))
    (hQR : ∀ m, Q m → R m) : FollowsAt (orElse p q).run R s := by
  constructor
  · intro hrun
    obtain ⟨hfirst, hsecond⟩ := run_orElse_eq_none.mp hrun
    exact run_orElse_eq_none.mpr ⟨hp.1 hfirst, hq.1 hsecond⟩
  · intro f r hrun
    rw [restOf_orElse]
    rcases run_orElse.mp hrun with hfirst | ⟨hfirst, hsecond⟩
    · obtain ⟨ls, hscan, ⟨hnot, hcrlf⟩ | ⟨hbreak, hP⟩⟩ := hp.2 f r hfirst
      · exact ⟨ls, hscan, .inl ⟨hnot, run_orElse.mpr (.inl hcrlf)⟩⟩
      · exact ⟨ls, hscan, .inr ⟨hbreak, hPR f r hfirst hP⟩⟩
    · -- The first choice is refused in both texts, so the second one decides in both.
      have hnone := hp.1 hfirst
      obtain ⟨ls, hscan, ⟨hnot, hcrlf⟩ | ⟨hbreak, hQ⟩⟩ := hq.2 f r hsecond
      · exact ⟨ls, hscan, .inl ⟨hnot, run_orElse.mpr (.inr ⟨hnone, hcrlf⟩)⟩⟩
      · refine ⟨ls, hscan, .inr ⟨hbreak, ?_⟩⟩
        rw [restOf, hnone]
        exact hQR _ hQ

/-- A choice whose second pattern does not take over where a literal keeps the first one from a
match. -/
theorem FollowsAt.orElse_fails (hp : FollowsAt p.run Fails s) (hq : FollowsAt q.run Fails s)
    (hexclusive : ∀ f r, p.run s = some (f, r) → q.run (crlf s) = none) :
    FollowsAt (Pattern.orElse p q).run Fails s := by
  refine hp.orElse hq (fun f r hrun hfails => ?_) fun _ h => h
  rw [hfails, restOf, hexclusive f r hrun]
  rfl

/-- A choice between patterns that stop. -/
theorem Follows.orElse (hp : Follows p (Stops B)) (hq : Follows q (Stops B)) :
    Follows (orElse p q) (Stops B) := by
  refine fun s hs => (hp s hs).orElse (hq s hs) (fun f r _ hstops => ?_) fun _ h => h
  obtain ⟨t, hrest, ht⟩ := hstops
  exact ⟨t, by rw [hrest]; rfl, ht⟩

/-- A choice follows if both of its patterns follow without coming to a continued literal. -/
theorem Follows.orElse_never (hp : Follows p Never) (hq : Follows q Never) :
    Follows (Pattern.orElse p q) Never :=
  fun s hs => (hp s hs).orElse (hq s hs) (fun _ _ _ h => h.elim) fun _ h => h

/-- The empty pattern follows. -/
theorem follows_empty : Follows empty Never :=
  fun s _ => .of_some rfl rfl (.nil s) not_hasContinued_nil

/-- An optional pattern stops where it stops, or at its start. -/
theorem Follows.optional (hp : Follows p (Blocks B))
    (hstart : ∀ s f r, p.run s = some (f, r) → p.run (crlf s) = none → B (crlf s)) :
    Follows (optional p) (Stops B) := by
  refine fun s hs => (hp s hs).orElse (follows_empty s hs) (fun f r hrun hblocks => ?_)
    fun _ h => h.elim
  cases hrest : restOf p.run (crlf s) with
  | none => exact ⟨crlf s, rfl, hstart s f r hrun (by simpa [restOf] using hrest)⟩
  | some t => exact ⟨t, rfl, hblocks t hrest⟩

/-! ## Nodes -/

/-- A pattern leaves the same rest as a node. -/
theorem restOf_node (rule : Rule) (p : Pattern Rule) (s : List Char) :
    restOf (node rule p).run s = restOf p.run s := by
  unfold restOf
  rw [run]
  cases p.run s <;> rfl

/-- A pattern follows as a node too. -/
theorem Follows.node {rule : Rule} (hp : Follows p P) : Follows (node rule p) P := by
  intro s hs
  refine ⟨fun hrun => ?_, fun f r hrun => ?_⟩
  · have hnone : p.run s = none := by simpa [run] using hrun
    rw [run, (hp s hs).1 hnone]
    rfl
  · obtain ⟨g, hg, rfl⟩ := run_node.mp hrun
    obtain ⟨ls, hscan, ⟨hnot, hcrlf⟩ | ⟨hbreak, hP⟩⟩ := (hp s hs).2 g r hg
    · exact ⟨ls, hscan, .inl ⟨hnot, run_node.mpr ⟨g.crlf, hcrlf, rfl⟩⟩⟩
    · exact ⟨ls, hscan, .inr ⟨hbreak, by rwa [restOf_node]⟩⟩

/-! ## Characters -/

/-- A match with a carriage return before every line feed. -/
def crlfMatch (m : Forest Rule × List Char) : Forest Rule × List Char :=
  (m.1.crlf, crlf m.2)

/-- A pattern for one character does the same where no line ends, and everywhere if it accepts no
line end. -/
theorem run_one_crlf {accepts : Char → Bool}
    (h : s.head? ≠ some '\n' ∨ ∀ c ∈ lineEnds, accepts c = false) :
    (one accepts : Pattern Rule).run (crlf s) = ((one accepts).run s).map crlfMatch := by
  cases s with
  | nil => rfl
  | cons c s =>
    by_cases hc : c = '\n'
    · -- A line feed is refused, and so is the carriage return that stands there in the other text.
      subst hc
      have hrefused := h.resolve_left (by simp)
      simp [run, hrefused '\n' (by decide), hrefused '\r' (by decide)]
    · rw [Text.crlf_cons hc, run, run]
      split
      · simp [crlfMatch, Forest.crlf, hc]
      · rfl

/-- A pattern for one character follows a text if none that starts a token is accepted. -/
theorem FollowsAt.one {accepts : Char → Bool} (htoken : ∀ c ∈ '#' :: quotes, accepts c = false)
    (h : s.head? ≠ some '\n' ∨ ∀ c ∈ lineEnds, accepts c = false) :
    FollowsAt (one accepts).run Never s := by
  refine ⟨fun hrun => by rw [run_one_crlf h, hrun]; rfl, fun f r hrun => ?_⟩
  refine ⟨[], ?_, .inl ⟨not_hasContinued_nil, by rw [run_one_crlf h, hrun]; rfl⟩⟩
  obtain ⟨c, haccepts, rfl, -⟩ := run_one.mp hrun
  exact .char (fun hmem => by simp [htoken c hmem] at haccepts) (.nil _)

/-- A pattern for one character that accepts no line end, and nothing that starts a token. -/
theorem follows_one {accepts : Char → Bool}
    (h : ∀ c ∈ lineEnds ++ '#' :: quotes, accepts c = false) : Follows (one accepts) Never := by
  obtain ⟨hends, htoken⟩ := List.forall_mem_append.mp h
  exact fun s _ => .one htoken (.inr hends)

/-- A character that has to do with neither line ends nor literals nor comments follows. -/
theorem follows_chr {c : Char} (h : c ∉ lineEnds ++ '#' :: quotes) :
    Follows (chr c) Never := by
  refine follows_one fun d hd => ?_
  have hne : d ≠ c := fun e => h (e ▸ hd)
  simpa using hne

/-- A word of such characters follows. -/
theorem follows_word {cs : List Char} (h : ∀ c ∈ cs, c ∉ lineEnds ++ '#' :: quotes) :
    Follows (word cs) Never := by
  induction cs with
  | nil => exact follows_empty
  | cons c cs ih =>
    rw [List.forall_mem_cons] at h
    cases cs with
    | nil => exact follows_chr h.1
    | cons d cs => exact (follows_chr h.1).seq_never (ih h.2)

/-! ## Repetition -/

/-- A repetition of the pattern does with a text that starts with a match what it does with the text
with other line endings; that one may take more than one match to it. -/
def FollowsPiecewise (p : Pattern Rule) (P : Option (List Char) → Prop) : Prop :=
  ∀ s, '\r' ∉ s → (p.run s = none → p.run (crlf s) = none) ∧
    ∀ f r, p.run s = some (f, r) → ∃ ls, Scan s r ls ∧
      ((¬ HasContinued ls ∧ many p.run (crlf s) =
          (f.crlf ++ (many p.run (crlf r)).1, (many p.run (crlf r)).2)) ∨
        (HasContinued ls ∧ P (restOf p.run (crlf s))))

/-- Something was read of a text if something was read of the text with other line endings. -/
theorem length_crlf_lt (hp : p.consumes = true) (h : p.run s = some (f, r)) :
    (crlf r).length < (crlf s).length := by
  have hlt := length_lt_of_consumes hp h
  have hs := lossless_run p s f r h
  have hle := Text.length_le_crlf f.text
  rw [hs, List.length_append] at hlt
  rw [hs, Text.crlf_append, List.length_append]
  omega

/-- A match of a pattern that follows a text is one match there too. -/
theorem Follows.piecewise (hp : Follows p P) (hconsumes : p.consumes = true) :
    FollowsPiecewise p P := by
  refine fun s hs => ⟨(hp s hs).1, fun f r hrun => ?_⟩
  obtain ⟨ls, hscan, hcases⟩ := (hp s hs).2 f r hrun
  refine ⟨ls, hscan, hcases.imp_left fun h => ⟨h.1, ?_⟩⟩
  exact many_of_some h.2 (length_crlf_lt hconsumes hrun)

/-- The pattern takes a line feed, and a carriage return, by itself. -/
structure TakesEnds (p : Pattern Rule) : Prop where
  feed : ∀ s, p.run ('\n' :: s) = some (.char '\n' .nil, s)
  ret : ∀ s, p.run ('\r' :: s) = some (.char '\r' .nil, s)

/-- A pattern that takes line ends character by character follows a text piecewise if it does so
where no line ends. -/
theorem TakesEnds.piecewise (hends : TakesEnds p) (hconsumes : p.consumes = true)
    (hp : ∀ s, '\r' ∉ s → s.head? ≠ some '\n' → FollowsAt p.run P s) : FollowsPiecewise p P := by
  intro s hs
  by_cases hhead : s.head? = some '\n'
  · obtain ⟨t, rfl⟩ := List.head?_eq_some_iff.mp hhead
    refine ⟨fun hrun => by simp [hends.feed] at hrun, fun f r hrun => ?_⟩
    obtain ⟨rfl, rfl⟩ := Prod.mk.inj (Option.some.inj ((hends.feed t).symm.trans hrun))
    -- Of the two characters of a line ending each is a piece of its own.
    refine ⟨[], .char (by decide) (.nil t), .inl ⟨not_hasContinued_nil, ?_⟩⟩
    rw [Text.crlf_feed, many_of_some (hends.ret _) (by simp), many_of_some (hends.feed _) (by simp)]
    rfl
  · refine ⟨(hp s hs hhead).1, fun f r hrun => ?_⟩
    obtain ⟨ls, hscan, hcases⟩ := (hp s hs hhead).2 f r hrun
    refine ⟨ls, hscan, hcases.imp_left fun h => ⟨h.1, ?_⟩⟩
    exact many_of_some h.2 (length_crlf_lt hconsumes hrun)

/-- A repetition that takes its first matches goes on with the others behind them. -/
theorem run_star_of_many (h : many p.run s = (f ++ (many p.run r).1, (many p.run r).2)) :
    (star p).run s = ((star p).run r).map fun (g, t) => (f ++ g, t) := by
  rw [run_star, h, run_star]
  rfl

/-- A repetition follows a text that its pattern follows piecewise. Where a literal keeps the
pattern from it, the repetition leaves a text of `B`. The induction is on the matches. -/
theorem FollowsPiecewise.star (hp : FollowsPiecewise p P) (hconsumes : p.consumes = true)
    (hbreak : ∀ s f r, '\r' ∉ s → p.run s = some (f, r) → P (restOf p.run (crlf s)) →
      B (many p.run (crlf s)).2) : Follows (star p) (Stops B) := by
  intro s hs
  fun_induction many p.run s with
  | case1 s hnone =>
    have hcrlf := many_of_none ((hp s hs).1 hnone)
    exact .of_some (run_star.trans (congrArg some (many_of_none hnone)))
      (run_star.trans (congrArg some hcrlf)) (.nil s) not_hasContinued_nil
  | case2 s f r hrun hlt g t hm ih =>
    have hrest := ih (not_mem_rest hs hrun)
    have hstep := run_star_of_many (many_of_some hrun hlt)
    obtain ⟨ls, hscan, ⟨hnot, hcrlf⟩ | ⟨hcontinued, hP⟩⟩ := (hp s hs).2 f r hrun
    · exact hrest.read hscan hnot hstep (run_star_of_many hcrlf)
    · refine hrest.of_hasContinued hscan hcontinued hstep (fun hnone => by simp [run] at hnone) ?_
      exact ⟨_, rfl, hbreak s f r hs hrun hP⟩
  | case3 s f r hrun hlt => exact absurd (length_lt_of_consumes hconsumes hrun) hlt

/-- A repetition of a pattern that reads over no literals. -/
theorem Follows.star_never (hp : Follows p Never) (hconsumes : p.consumes = true) :
    Follows (star p) Never :=
  ((hp.piecewise hconsumes).star (B := fun _ => False) hconsumes fun _ _ _ _ _ h => h.elim).mono
    fun _ h => h.choose_spec.2

/-- A repetition of a pattern that fails is left where the pattern starts. -/
theorem FollowsPiecewise.star_fails (hp : FollowsPiecewise p Fails) (hconsumes : p.consumes = true)
    (hstart : ∀ s f r, '\r' ∉ s → p.run s = some (f, r) → p.run (crlf s) = none → B (crlf s)) :
    Follows (Pattern.star p) (Stops B) := by
  refine hp.star hconsumes fun s f r hs hrun hfails => ?_
  have hnone : p.run (crlf s) = none := by simpa [Fails, restOf] using hfails
  rw [many_of_none hnone]
  exact hstart s f r hs hrun hnone

/-- A repetition of a pattern that stops where the pattern fails stops there. -/
theorem Follows.star_stops (hp : Follows p (Stops B)) (hconsumes : p.consumes = true)
    (hrefused : ∀ s, B s → p.run s = none) : Follows (star p) (Stops B) := by
  refine (hp.piecewise hconsumes).star hconsumes fun s f r _ hrun hstops => ?_
  obtain ⟨t, hrest, ht⟩ := hstops
  obtain ⟨⟨g, u⟩, hmatch, rfl⟩ := Option.map_eq_some_iff.mp hrest
  by_cases hlt : u.length < (crlf s).length
  · rw [many_of_some hmatch hlt, many_of_none (hrefused u ht)]
    exact ht
  · exact absurd (length_lt_of_consumes hconsumes hmatch) hlt

/-- A repetition of at least one match does not match where the pattern does not, and is left where
the repetition is. -/
theorem FollowsPiecewise.plus (hp : FollowsPiecewise p Fails) (hconsumes : p.consumes = true)
    (hstart : ∀ s f r, '\r' ∉ s → p.run s = some (f, r) → p.run (crlf s) = none → B (crlf s)) :
    Follows (plus p) (Blocks B) := by
  have hplus : ∀ s, (Pattern.plus p).run s =
      if p.run s = none then none else (Pattern.star p).run s := by
    intro s
    rw [Pattern.plus, run, run_star]
    cases hrun : p.run s with
    | none => rfl
    | some m => rw [many_of_some hrun (length_lt_of_consumes hconsumes hrun)]; rfl
  intro s hs
  refine ⟨fun hrun => ?_, fun f r hrun => ?_⟩
  · -- Without a first match there is no repetition, in either text.
    have hnone : p.run s = none := by
      by_contra hne
      simp [hplus, hne, run_star] at hrun
    rw [hplus, if_pos ((hp s hs).1 hnone)]
  · have hsome : p.run s ≠ none := fun hnone => by simp [hplus, hnone] at hrun
    rw [hplus, if_neg hsome] at hrun
    obtain ⟨ls, hscan, hcases⟩ := (hp.star_fails hconsumes hstart s hs).2 f r hrun
    refine ⟨ls, hscan, ?_⟩
    by_cases hnone : p.run (crlf s) = none
    · right
      refine ⟨?_, fun t ht => by simp [restOf, hplus, hnone] at ht⟩
      -- Nothing is read of the other text, but something of this one.
      rcases hcases with ⟨-, hcrlf⟩ | h
      · rw [run_star, many_of_none hnone, Option.some.injEq, Prod.mk.injEq] at hcrlf
        obtain ⟨⟨g, t⟩, hmatch⟩ := Option.ne_none_iff_exists'.mp hsome
        rw [run_star, many_of_some hmatch (length_lt_of_consumes hconsumes hmatch),
          Option.some.injEq, Prod.mk.injEq] at hrun
        have hlt := length_crlf_lt hconsumes hmatch
        have hle := (lossless_run p).many_text t
        rw [hrun.2] at hle
        have hlength := congrArg (fun u => (crlf u).length) hle
        simp only [Text.crlf_append, List.length_append] at hlength
        rw [hcrlf.2] at hlt
        omega
      · exact h.1
    · refine hcases.imp (fun h => ⟨h.1, ?_⟩) fun h => ⟨h.1, ?_⟩
      · rw [hplus, if_neg hnone, h.2]
      · obtain ⟨t, hrest, ht⟩ := h.2
        -- What is left of the other text is what the repetition leaves of it.
        intro u hu
        rw [restOf, hplus, if_neg hnone] at hu
        rw [restOf, hu, Option.some.injEq] at hrest
        rwa [hrest]

end UdfBridge.Source
