import UdfBridge.Proofs.Grammar.Nodes
import UdfBridge.Proofs.Grammar.Tree
import UdfBridge.Proofs.Source.Heading
import UdfBridge.Proofs.Source.Removal
import UdfBridge.Proofs.Text.Crlf

/-!
# The lines of the decorators

`FunctionDef.decoratorLines` counts the lines of a decorator in its text without the white space at
its end. A decorator ends with the line feed of its last line, so this is the line behind which its
counting starts; but if its last line is blank, behind a backslash at the end of the line before,
then the trimming takes that line feed too, and the last line is left out
(`decoratorLines_exact_iff`).

`EndsJoined` is what every piece of a decorator keeps: of a text without carriage returns, no line
but one behind a backslash is blank to the end.
-/

namespace UdfBridge.Grammar

open Text (Position)

variable {ρ : Type}

/-- The nodes of a forest stand in its text. -/
theorem Forest.chars_infix {f : Forest ρ} {p : Position} {n : Node ρ} (h : n ∈ f.nodes p) :
    n.chars <:+: f.text := by
  obtain ⟨a, b, htext, -⟩ := exists_of_mem_nodes h
  exact ⟨a, b, by rw [htext, List.append_assoc]⟩

/-- The nodes of a forest stand between its ends. -/
theorem Forest.lines_of_mem_nodes {f : Forest ρ} {p : Position} {n : Node ρ} (h : n ∈ f.nodes p) :
    p.line ≤ n.start.line ∧ n.stop.line ≤ (p.advance f.text).line := by
  obtain ⟨a, b, htext, hstart⟩ := exists_of_mem_nodes h
  rw [Node.stop, htext, hstart]
  simp only [Position.advance_append, Position.line_advance]
  omega

/-- No node of a forest starts on a line before the end of an earlier one. -/
theorem Forest.pairwise_nodes (f : Forest ρ) (p : Position) :
    (f.nodes p).Pairwise fun n m => n.stop.line ≤ m.start.line := by
  refine (f.pairwise_advance p).imp fun {n m} h => ?_
  obtain ⟨a, ha⟩ := h
  rw [ha, Position.line_advance]
  exact Nat.le_add_right _ _

end UdfBridge.Grammar

namespace UdfBridge.Source

open Grammar
open Grammar.Pattern
open Text (Position isBlank trimEndChars unfinishedLine)

variable {p q : Pattern Rule}

/-! ## Where the text of a decorator ends -/

/-- A line feed behind which there is only white space stands behind a backslash. -/
def EndsJoined (t : List Char) : Prop :=
  ∀ a b, t = a ++ '\n' :: b → (∀ c ∈ b, isBlank c = true) → a.getLast? = some '\\'

/-- Two texts that end joined make one that does. A last line feed of both may have come from the
first, if the second is white space. -/
theorem EndsJoined.append {t u : List Char} (ht : EndsJoined t) (hu : EndsJoined u) :
    EndsJoined (t ++ u) := by
  intro a b h hb
  rcases List.append_eq_append_iff.mp h with ⟨v, rfl, rfl⟩ | ⟨v, rfl, hv⟩
  · rw [List.getLast?_append, hu v b rfl hb]
    rfl
  · cases v with
    | nil =>
      have := hu [] b hv.symm hb
      simp at this
    | cons c v =>
      obtain ⟨rfl, rfl⟩ := List.cons.inj hv
      exact ht a v rfl fun c hc => hb c (List.mem_append_left u hc)

/-- A text on one line ends joined. -/
theorem endsJoined_of_not_mem {t : List Char} (h : '\n' ∉ t) : EndsJoined t := by
  rintro a b rfl
  simp at h

/-- A text that does not end in white space. -/
theorem endsJoined_concat {t : List Char} {c : Char} (hc : isBlank c = false) :
    EndsJoined (t ++ [c]) := by
  intro a b h hb
  rcases List.eq_nil_or_concat b with rfl | ⟨b', d, rfl⟩
  · obtain ⟨-, hlast⟩ := List.append_inj' h rfl
    obtain rfl := List.singleton_inj.mp hlast
    simp [isBlank] at hc
  · rw [List.concat_eq_append, ← List.cons_append, ← List.append_assoc] at h
    obtain ⟨-, hlast⟩ := List.append_inj' h rfl
    obtain rfl := List.singleton_inj.mp hlast
    have := hb c (by simp)
    simp [hc] at this

/-- The matches of the pattern, if they have no carriage returns, end joined. -/
def Joins (p : Pattern Rule) : Prop :=
  ∀ s f r, p.run s = some (f, r) → '\r' ∉ f.text → EndsJoined f.text

/-- The matches of the pattern end with a character of `cs`. -/
def EndsIn (cs : List Char) (p : Pattern Rule) : Prop :=
  ∀ s f r, p.run s = some (f, r) → ∃ t, ∃ c ∈ cs, f.text = t ++ [c]

/-- A match ends joined if it ends with a character that is no white space. -/
theorem EndsIn.joins {cs : List Char} (hp : EndsIn cs p) (hcs : ∀ c ∈ cs, isBlank c = false) :
    Joins p := by
  intro s f r h _
  obtain ⟨t, c, hc, ht⟩ := hp s f r h
  rw [ht]
  exact endsJoined_concat (hcs c hc)

/-- A sequence ends with what its second part ends with. -/
theorem EndsIn.seq {cs : List Char} (hq : EndsIn cs q) : EndsIn cs (seq p q) := by
  intro s f r h
  obtain ⟨f₁, r₁, f₂, -, h₂, rfl⟩ := run_seq.mp h
  obtain ⟨t, c, hc, ht⟩ := hq _ _ _ h₂
  exact ⟨f₁.text ++ t, c, hc, by rw [Forest.text_append, ht, List.append_assoc]⟩

/-- A choice ends with what both of its patterns end with. -/
theorem EndsIn.orElse {cs : List Char} (hp : EndsIn cs p) (hq : EndsIn cs q) :
    EndsIn cs (orElse p q) := by
  intro s f r h
  rcases run_orElse.mp h with h | ⟨-, h⟩
  · exact hp _ _ _ h
  · exact hq _ _ _ h

/-- A single character is what it ends with. -/
theorem endsIn_chr {cs : List Char} {c : Char} (hc : c ∈ cs) : EndsIn cs (chr c) := by
  intro s f r h
  obtain ⟨-, rfl⟩ := run_chr.mp h
  exact ⟨[], c, hc, rfl⟩

/-- A string literal ends with a quote. -/
theorem endsIn_stringLiteral : EndsIn quotes stringLiteral := by
  have htriple : ∀ q ∈ quotes, EndsIn quotes (tripleQuoted q) := fun q hq =>
    (endsIn_chr hq).seq.seq.seq.seq
  have hquoted : ∀ q ∈ quotes, EndsIn quotes (quoted q) := fun q hq => (endsIn_chr hq).seq.seq
  exact (htriple '"' (by decide)).orElse ((htriple '\'' (by decide)).orElse
    ((hquoted '"' (by decide)).orElse (hquoted '\'' (by decide))))

/-- A group ends with the bracket that closes it. -/
theorem endsIn_closeGroups (leaf : Step Rule) {ws : List Char} (hne : ws ≠ [])
    (hws : ∀ w ∈ ws, w ∈ closers) {s r : List Char} {f : Forest Rule}
    (h : closeGroups leaf ws s = some (f, r)) : ∃ t, ∃ c ∈ closers, f.text = t ++ [c] := by
  fun_induction closeGroups leaf ws s generalizing f r with
  | case1 => contradiction
  | case2 | case5 | case7 => simp at h
  | case3 ws w s ih =>
    obtain ⟨⟨g, u⟩, hg, hf⟩ := Option.map_eq_some_iff.mp h
    obtain ⟨rfl, rfl⟩ := Prod.mk.inj hf
    obtain ⟨hw, hws⟩ := List.forall_mem_cons.mp hws
    by_cases hnil : ws = []
    · -- The last group is closed.
      rw [hnil, closeGroups, Option.some.injEq, Prod.mk.injEq] at hg
      exact ⟨[], w, hw, by rw [← hg.1]; rfl⟩
    · -- Another group is still open, and the text ends with a bracket that closes it.
      obtain ⟨t, c, hc, ht⟩ := ih hnil hws hg
      exact ⟨w :: t, c, hc, by rw [Forest.text, ht]; rfl⟩
  | case4 w ws o s _ v hopen ih =>
    obtain ⟨⟨g, u⟩, hg, hf⟩ := Option.map_eq_some_iff.mp h
    obtain ⟨rfl, rfl⟩ := Prod.mk.inj hf
    -- The bracket opens one more group, so there are groups to be closed.
    obtain ⟨t, c, hc, ht⟩ := ih (List.cons_ne_nil _ _)
      (List.forall_mem_cons.mpr ⟨(closer?_eq_some hopen).2, hws⟩) hg
    exact ⟨o :: t, c, hc, by rw [Forest.text, ht]; rfl⟩
  | case6 w ws o s _ _ f' r' _ _ ih =>
    obtain ⟨⟨g, u⟩, hg, hf⟩ := Option.map_eq_some_iff.mp h
    obtain ⟨rfl, rfl⟩ := Prod.mk.inj hf
    -- A leaf stands in front of what closes the groups.
    obtain ⟨t, c, hc, ht⟩ := ih hne hws hg
    exact ⟨f'.text ++ t, c, hc, by rw [Forest.text_append, ht, List.append_assoc]⟩

/-- A group ends with the bracket that closes it. -/
theorem endsIn_bracketGroup : EndsIn closers bracketGroup := by
  intro s f r h
  obtain ⟨c, w, u, g, hw, -, hg, rfl⟩ := run_balanced.mp h
  obtain ⟨t, k, hk, ht⟩ := endsIn_closeGroups _ (List.cons_ne_nil w [])
    (List.forall_mem_singleton.mpr (closer?_eq_some hw).2) hg
  exact ⟨c :: t, k, hk, by rw [Forest.text, ht]; rfl⟩

section Joins

/-- A sequence ends joined if both of its parts do. -/
theorem Joins.seq (hp : Joins p) (hq : Joins q) : Joins (seq p q) := by
  intro s f r h hreturn
  obtain ⟨f₁, r₁, f₂, h₁, h₂, rfl⟩ := run_seq.mp h
  rw [Forest.text_append, List.mem_append, not_or] at hreturn
  rw [Forest.text_append]
  exact (hp _ _ _ h₁ hreturn.1).append (hq _ _ _ h₂ hreturn.2)

/-- A choice ends joined if both of its patterns do. -/
theorem Joins.orElse (hp : Joins p) (hq : Joins q) : Joins (orElse p q) := by
  intro s f r h
  rcases run_orElse.mp h with h | ⟨-, h⟩
  · exact hp _ _ _ h
  · exact hq _ _ _ h

/-- A repetition ends joined if each of its matches does. -/
theorem Joins.star (hp : Joins p) : Joins (star p) := by
  intro s f r h
  refine run_star_induction (Q := fun _ f _ => '\r' ∉ f.text → EndsJoined f.text)
    (fun _ _ => endsJoined_of_not_mem List.not_mem_nil) (fun hrun _ ih hreturn => ?_) h
  rw [Forest.text_append, List.mem_append, not_or] at hreturn
  rw [Forest.text_append]
  exact (hp _ _ _ hrun hreturn.1).append (ih hreturn.2)

/-- A pattern ends joined as a node too. -/
theorem Joins.node {rule : Rule} (hp : Joins p) : Joins (node rule p) := by
  intro s f r h
  obtain ⟨g, hg, rfl⟩ := run_node.mp h
  have := hp s g r hg
  rwa [Forest.text, Forest.text, List.append_nil]

/-- A character that is no line feed ends joined. -/
theorem joins_one {accepts : Char → Bool} (h : accepts '\n' = false) : Joins (one accepts) := by
  intro s f r hrun _
  obtain ⟨c, hc, -, rfl⟩ := run_one.mp hrun
  refine endsJoined_of_not_mem fun hmem => ?_
  obtain rfl := List.mem_singleton.mp hmem
  simp [h] at hc

/-- Without carriage returns, a line ends with a line feed. -/
theorem text_of_lineBreak {s r : List Char} {f : Forest Rule} (h : lineBreak.run s = some (f, r))
    (hreturn : '\r' ∉ f.text) : f.text = ['\n'] := by
  rcases run_orElse.mp h with h | ⟨-, h⟩
  · obtain ⟨-, rfl⟩ := run_chr.mp h
    rfl
  · refine absurd ?_ hreturn
    rcases run_orElse.mp h with h | ⟨-, h⟩
    · rw [forest_of_word h]
      exact List.mem_cons_self
    · obtain ⟨-, rfl⟩ := run_chr.mp h
      exact List.mem_cons_self

/-- A continuation ends joined: its line feed stands behind the backslash. -/
theorem joins_continuation : Joins continuation := by
  intro s f r h hreturn
  obtain ⟨f₁, r₁, f₂, h₁, h₂, rfl⟩ := run_seq.mp h
  obtain ⟨-, rfl⟩ := run_chr.mp h₁
  have hfeed := text_of_lineBreak h₂ fun hmem => hreturn (List.mem_cons_of_mem _ hmem)
  intro a b heq _
  rw [Forest.text_append, hfeed] at heq
  cases a with
  | nil => simp [Forest.text] at heq
  | cons c a =>
    obtain ⟨hc, ha⟩ := List.cons.inj heq
    cases a with
    | nil => rw [← hc]; rfl
    | cons d a => simp [Forest.text] at ha

/-- Blanks and continuations end joined. -/
theorem joins_inlineSpaces : Joins (star inlineSpace) :=
  ((joins_one (by decide)).orElse joins_continuation).star

/-- A comment ends joined, for it stands on one line. -/
theorem joins_comment : Joins comment :=
  (joins_one (by decide)).seq (joins_one (by decide)).star

/-- The expression of a decorator ends joined. -/
theorem joins_decoratorExpr : Joins decoratorExpr := by
  have hpiece : Joins (exprPiece lineEnds) :=
    (endsIn_stringLiteral.joins (by decide)).orElse
      ((endsIn_bracketGroup.joins (by decide)).orElse (joins_one (by decide)))
  have hstep := joins_continuation.orElse hpiece
  exact (hstep.seq hstep.star).node

end Joins

/-- The text of a decorator: its last line ends with a line feed, and what stands before that ends
joined. -/
theorem text_of_decorator {s r : List Char} {f : Forest Rule}
    (h : decorator.run s = some (.node .decorator f .nil, r)) (hreturn : '\r' ∉ f.text) :
    ∃ t, f.text = t ++ ['\n'] ∧ EndsJoined t ∧ '@' ∈ t := by
  obtain ⟨g, hg, heq⟩ := run_node.mp h
  obtain rfl : f = g := by simpa using heq
  -- The parts of the decorator in the order of its pattern.
  obtain ⟨f₁, r₁, g₁, h₁, hg₁, rfl⟩ := run_seq.mp hg
  obtain ⟨f₂, r₂, g₂, h₂, hg₂, rfl⟩ := run_seq.mp hg₁
  obtain ⟨f₃, r₃, g₃, h₃, hg₃, rfl⟩ := run_seq.mp hg₂
  obtain ⟨f₄, r₄, g₄, h₄, hg₄, rfl⟩ := run_seq.mp hg₃
  obtain ⟨f₅, r₅, f₆, h₅, h₆, rfl⟩ := run_seq.mp hg₄
  simp only [Forest.text_append, List.mem_append, not_or] at hreturn
  obtain ⟨hr₁, hr₂, hr₃, hr₄, hr₅, hr₆⟩ := hreturn
  refine ⟨f₁.text ++ (f₂.text ++ (f₃.text ++ (f₄.text ++ f₅.text))), ?_, ?_, ?_⟩
  · simp [text_of_lineBreak h₆ hr₆]
  · have hcomment : Joins (optional comment) :=
      joins_comment.orElse fun _ _ _ h _ => by
        rw [(run_empty.mp h).1]
        exact endsJoined_of_not_mem List.not_mem_nil
    exact (joins_inlineSpaces _ _ _ h₁ hr₁).append ((joins_one (by decide) _ _ _ h₂ hr₂).append
      ((joins_inlineSpaces _ _ _ h₃ hr₃).append ((joins_decoratorExpr _ _ _ h₄ hr₄).append
        (hcomment _ _ _ h₅ hr₅))))
  · obtain ⟨-, rfl⟩ := run_chr.mp h₂
    simp [Forest.text]

/-- Where no line feed is in the white space at the end of a text, the last line is not blank. -/
theorem not_isBlank_of_rtakeWhile {t : List Char} {c : Char} (hc : c ∈ t)
    (hblank : isBlank c = false) (hfeed : '\n' ∉ t.rtakeWhile isBlank) :
    ¬ ∀ c ∈ unfinishedLine t, isBlank c = true := by
  intro hall
  have hsplit : t = trimEndChars t ++ t.rtakeWhile isBlank :=
    List.rdropWhile_append_rtakeWhile.symm
  rcases List.eq_nil_or_concat (trimEndChars t) with hnil | ⟨u, d, hu⟩
  · -- All of the text would be white space, but `c` is none.
    rw [hnil, List.nil_append] at hsplit
    have := List.mem_rtakeWhile_imp (hsplit ▸ hc)
    simp [hblank] at this
  · -- The last character of the trimmed text is on the last line.
    have hd : isBlank d = false := by
      have hlast := List.rdropWhile_last_not isBlank t (by
        show trimEndChars t ≠ []
        simp [hu])
      have heq : (trimEndChars t).getLast (by simp [hu]) = d := by simp [hu]
      rw [← heq]
      exact Bool.eq_false_iff.mpr hlast
    have hmem : d ∈ unfinishedLine t := by
      rw [hsplit, hu, List.concat_eq_append, List.append_assoc, Text.unfinishedLine_append]
      · -- What is trimmed away has no line feed, and neither is `d` one.
        simp
      · intro hin
        rcases List.mem_append.mp hin with hin | hin
        · rw [← List.mem_singleton.mp hin] at hd
          simp [isBlank] at hd
        · exact hfeed hin
    have := hall d hmem
    simp [hd] at this

/-- A trimmed text and the white space behind it, which starts with the only line feed that it has;
with such a line feed the last line is blank, and without one it is not. -/
theorem exists_trimmed {t : List Char} (ht : EndsJoined t) {c : Char} (hc : c ∈ t)
    (hblank : isBlank c = false) : ∃ w, t = trimEndChars t ++ w ∧
      (w.count '\n' = 1 ∧ (∀ c ∈ unfinishedLine t, isBlank c = true) ∨
        w.count '\n' = 0 ∧ ¬ ∀ c ∈ unfinishedLine t, isBlank c = true) := by
  have hsplit : t = trimEndChars t ++ t.rtakeWhile isBlank :=
    List.rdropWhile_append_rtakeWhile.symm
  have hw : ∀ c ∈ t.rtakeWhile isBlank, isBlank c = true := fun _ => List.mem_rtakeWhile_imp
  have hlast := not_isBlank_of_rtakeWhile hc hblank
  generalize t.rtakeWhile isBlank = w at hsplit hw hlast
  refine ⟨w, hsplit, ?_⟩
  by_cases hfeed : '\n' ∈ w
  · obtain ⟨a, b, rfl⟩ := List.append_of_mem hfeed
    -- In front of a line feed in the white space a backslash would stand in it.
    have hfirst : ∀ x y, a ++ '\n' :: b = x ++ '\n' :: y → x = [] := by
      intro x y hxy
      rw [hxy] at hsplit hw
      have hjoined := ht (trimEndChars t ++ x) y (by rw [List.append_assoc]; exact hsplit)
        fun c hc => hw c (by simp [hc])
      by_contra hne
      rw [List.getLast?_append_of_ne_nil _ hne] at hjoined
      have := hw _ (List.mem_append_left _ (List.mem_of_getLast? hjoined))
      simp [isBlank] at this
    obtain rfl := hfirst a b rfl
    -- A second line feed would have the first one in front of it.
    have hb : '\n' ∉ b := by
      intro hmem
      obtain ⟨x, y, rfl⟩ := List.append_of_mem hmem
      exact absurd (hfirst ('\n' :: x) y rfl) (List.cons_ne_nil _ _)
    left
    rw [List.nil_append] at hsplit hw ⊢
    rw [List.count_cons_self, List.count_eq_zero.mpr hb]
    refine ⟨rfl, fun c hc => hw c ?_⟩
    rw [hsplit, List.append_cons, Text.unfinishedLine_append _ hb,
      Text.unfinishedLine_of_getLast? List.getLast?_concat, List.nil_append] at hc
    exact List.mem_cons_of_mem _ hc
  · exact .inr ⟨List.count_eq_zero.mpr hfeed, hlast hfeed⟩

/-! ## Decorators -/

/-- The decorators of a definition. -/
def decoratorNodes (n : Node Rule) : List (Node Rule) :=
  n.children.filter (·.rule = .decorator)

/-- The line on which the last character of a node stands. -/
def lastLine (n : Node Rule) : Nat :=
  (n.start.advance n.chars.dropLast).line

/-- The last line of a node is blank. -/
def EndsBlank (n : Node Rule) : Prop :=
  ∀ c ∈ unfinishedLine n.chars.dropLast, isBlank c = true

instance : DecidablePred EndsBlank := fun n =>
  inferInstanceAs (Decidable (∀ c ∈ unfinishedLine n.chars.dropLast, isBlank c = true))

/-- The lines that are counted for a decorator: from the one on which it starts to its last one, which
is left out if it is blank. -/
theorem mem_linesOfDecorator_iff {n : Node Rule} {t : List Char} (hchars : n.chars = t ++ ['\n'])
    (ht : EndsJoined t) (hsign : '@' ∈ t) {k : Nat} : k ∈ linesOfDecorator n ↔
      n.start.line ≤ k ∧ k ≤ lastLine n ∧ (EndsBlank n → k ≠ lastLine n) := by
  have hdrop : n.chars.dropLast = t := by rw [hchars, List.dropLast_concat]
  have htrim : trimEndChars n.chars = trimEndChars t := by
    rw [hchars]
    exact List.rdropWhile_concat_pos isBlank t '\n' (by decide)
  have hlast : lastLine n = n.start.line + t.count '\n' := by
    rw [lastLine, hdrop, Position.line_advance]
  obtain ⟨w, hsplit, hcases⟩ := exists_trimmed ht hsign (by decide)
  have hcount : t.count '\n' = (trimEndChars t).count '\n' + w.count '\n' := by
    rw [← List.count_append, ← hsplit]
  rw [linesOfDecorator, htrim, List.mem_range'_1, EndsBlank, hdrop, hlast]
  rcases hcases with ⟨hw, hblank⟩ | ⟨hw, hblank⟩
  · have : ((∀ c ∈ unfinishedLine t, isBlank c = true) → k ≠ n.start.line + t.count '\n') ↔
        k ≠ n.start.line + t.count '\n' := ⟨fun h => h hblank, fun h _ => h⟩
    rw [this]
    omega
  · have : ((∀ c ∈ unfinishedLine t, isBlank c = true) → k ≠ n.start.line + t.count '\n') ↔
        True := iff_true_intro fun h => absurd h hblank
    rw [this, and_true]
    omega

namespace Division

variable {s : List Char} (d : Division s)

/-- The nodes of the lead are the decorators. -/
theorem decoratorNodes_root : decoratorNodes d.root = d.lead.nodes .origin :=
  d.filter_decorator

/-- The texts of the decorators of a text without carriage returns. -/
theorem chars_decorator (hs : '\r' ∉ s) {n : Node Rule} (hn : n ∈ d.lead.nodes .origin) :
    ∃ t, n.chars = t ++ ['\n'] ∧ EndsJoined t ∧ '@' ∈ t := by
  have hreturn : '\r' ∉ n.chars := by
    intro hmem
    refine hs ?_
    rw [d.text_eq]
    exact List.mem_append_left _ ((Forest.chars_infix hn).subset hmem)
  have heach : d.lead.Each fun rule f => rule = .decorator → ∃ s r,
      decorator.run s = some (.node .decorator f .nil, r) := by
    refine each_run (fun x hx s f r hrun hrule => ?_) _ _ _ d.run_lead
    -- The decorator's is the one pattern of this rule.
    have hnamed : leadPattern.named.filter (fun x => x.1 = .decorator) =
        [⟨.decorator, inOrder [Pattern.star inlineSpace, chr '@', Pattern.star inlineSpace,
          decoratorExpr, optional comment, lineBreak]⟩] := rfl
    have hmem : x ∈ leadPattern.named.filter (fun x => x.1 = .decorator) :=
      List.mem_filter.mpr ⟨hx, by simpa using hrule⟩
    rw [hnamed] at hmem
    obtain rfl := List.mem_singleton.mp hmem
    exact ⟨s, r, run_node.mpr ⟨f, hrun, rfl⟩⟩
  obtain ⟨s', r, hrun⟩ := (heach.of_mem_nodes hn).1 (d.rule_of_mem_lead hn)
  exact text_of_decorator hrun hreturn

/-- The lines that are counted for a decorator of a text without carriage returns. -/
theorem mem_linesOfDecorator (hs : '\r' ∉ s) {m : Node Rule} (hm : m ∈ d.lead.nodes .origin)
    {k : Nat} : k ∈ linesOfDecorator m ↔
      m.start.line ≤ k ∧ k ≤ lastLine m ∧ (EndsBlank m → k ≠ lastLine m) := by
  obtain ⟨t, ht, hjoined, hsign⟩ := d.chars_decorator hs hm
  exact mem_linesOfDecorator_iff ht hjoined hsign

/-- A decorator ends behind its last line. -/
theorem lastLine_lt_stop (hs : '\r' ∉ s) {m : Node Rule} (hm : m ∈ d.lead.nodes .origin) :
    m.start.line ≤ lastLine m ∧ lastLine m < m.stop.line := by
  obtain ⟨t, ht, -, -⟩ := d.chars_decorator hs hm
  have hstop : m.stop.line = m.start.line + (t.count '\n' + 1) := by
    rw [Node.stop, Position.line_advance, ht, List.count_append]
    rfl
  rw [lastLine, ht, List.dropLast_concat, Position.line_advance, hstop]
  omega

/-- A decorator ends on a line before that on which the next one starts. -/
theorem pairwise_lastLine (hs : '\r' ∉ s) :
    (d.lead.nodes .origin).Pairwise fun m m' => lastLine m < m'.start.line :=
  (d.lead.pairwise_nodes .origin).imp_of_mem fun hm _ hle =>
    (d.lastLine_lt_stop hs hm).2.trans_le hle

/-- No other decorator has the last line of a decorator. -/
theorem eq_of_lastLine (hs : '\r' ∉ s) {m m' : Node Rule} (hm : m ∈ d.lead.nodes .origin)
    (hm' : m' ∈ d.lead.nodes .origin) (hge : m'.start.line ≤ lastLine m)
    (hle : lastLine m ≤ lastLine m') : m = m' := by
  have hcases : m = m' ∨ lastLine m < m'.start.line ∨ lastLine m' < m.start.line := by
    refine List.Pairwise.forall_of_forall_of_flip (R := fun m m' => m = m' ∨
      lastLine m < m'.start.line ∨ lastLine m' < m.start.line) ?_ ?_ ?_ hm hm'
    · exact fun _ _ => .inl rfl
    · exact (d.pairwise_lastLine hs).imp fun hlt => .inr (.inl hlt)
    · exact (d.pairwise_lastLine hs).imp fun hlt => .inr (.inr hlt)
  have := (d.lastLine_lt_stop hs hm).1
  rcases hcases with heq | hlt | hlt
  · exact heq
  · omega
  · omega

end Division

/-- **The lines of the decorators.** The lines of the decorators are strictly increasing and stand
before the line of the definition. They are those from the first to the last line of each decorator,
but for the last lines that are blank; so they are all of these lines exactly if no decorator ends
with a blank line. -/
theorem decoratorLines_exact_iff {text : String} {f : FunctionDef} (h : '\r' ∉ text.toList)
    (hparse : FunctionDef.parse text = .ok f) :
    f.decoratorLines.Pairwise (· < ·) ∧ (∀ k ∈ f.decoratorLines, k < f.defLine) ∧
      ∃ n, root f.source = .ok n ∧ (∀ m ∈ decoratorNodes n, m.chars.getLast? = some '\n') ∧
        (∀ k, k ∈ f.decoratorLines ↔ ∃ m ∈ decoratorNodes n,
          m.start.line ≤ k ∧ k ≤ lastLine m ∧ (EndsBlank m → k ≠ lastLine m)) ∧
        ((∀ k, k ∈ f.decoratorLines ↔ ∃ m ∈ decoratorNodes n,
            m.start.line ≤ k ∧ k ≤ lastLine m) ↔
          ∀ m ∈ decoratorNodes n, ¬ EndsBlank m) := by
  obtain ⟨-, ⟨d, -⟩, -⟩ := FunctionDef.parse_spec hparse
  obtain ⟨hsource, hline, hlines⟩ := FunctionDef.ofLead_of_parse hparse d
  have hs : '\r' ∉ (Text.dedent text).toList := fun hmem => h (Text.mem_of_mem_dedent hmem)
  have hexact : ∀ k, k ∈ f.decoratorLines ↔ ∃ m ∈ d.lead.nodes .origin,
      m.start.line ≤ k ∧ k ≤ lastLine m ∧ (EndsBlank m → k ≠ lastLine m) := by
    intro k
    rw [hlines, List.mem_flatMap]
    exact exists_congr fun m => and_congr_right fun hm => d.mem_linesOfDecorator hs hm
  -- The lines of one decorator increase, and those of the next one start behind them.
  refine ⟨?_, ?_, d.root, ?_, ?_, ?_, ?_⟩
  · rw [hlines, List.pairwise_flatMap]
    refine ⟨fun m _ => List.pairwise_lt_range', (d.pairwise_lastLine hs).imp_of_mem ?_⟩
    intro m m' hm hm' hlt k hk k' hk'
    have hle := ((d.mem_linesOfDecorator hs hm).mp hk).2.1
    exact (hle.trans_lt hlt).trans_le ((d.mem_linesOfDecorator hs hm').mp hk').1
  · intro k hk
    obtain ⟨m, hm, -, hle, -⟩ := (hexact k).mp hk
    rw [hline]
    exact (hle.trans_lt (d.lastLine_lt_stop hs hm).2).trans_le (Forest.lines_of_mem_nodes hm).2
  · rw [hsource]
    exact root_eq_ok_iff.mpr ⟨d, rfl⟩
  · rw [d.decoratorNodes_root]
    intro m hm
    obtain ⟨t, ht, -, -⟩ := d.chars_decorator hs hm
    rw [ht, List.getLast?_concat]
  · rw [d.decoratorNodes_root]
    exact hexact
  · rw [d.decoratorNodes_root]
    constructor
    · intro hall m hm hblank
      -- The last line of a decorator that ends blank is not listed, though it belongs to the
      -- decorator.
      obtain ⟨m', hm', hge, hle, hne⟩ := (hexact (lastLine m)).mp
        ((hall _).mpr ⟨m, hm, (d.lastLine_lt_stop hs hm).1, Nat.le_refl _⟩)
      obtain rfl := d.eq_of_lastLine hs hm hm' hge hle
      exact hne hblank rfl
    · intro hnone k
      rw [hexact]
      exact exists_congr fun m => and_congr_right fun hm =>
        and_congr_right fun _ => and_iff_left fun hblank => absurd hblank (hnone m hm)

/-- Decorators that end in brackets, in a string over two lines, in a comment, and behind a backslash,
with blank lines between them. -/
def longLead : String :=
  "  @a(1, # )\n   2)\n\n  @b.'''x\ny''' \\\n .c # d\n # e\n  @f\n\n  def g(): pass\n"

/-- All of their lines are lines of decorators, and no other ones. -/
theorem decoratorLines_exact_of_longLead : ∃ f, FunctionDef.parse longLead = .ok f ∧
    f.decoratorLines = [1, 2, 4, 5, 6, 8] ∧ f.defLine = 10 ∧ ∃ n, root f.source = .ok n ∧
      ∀ k, k ∈ f.decoratorLines ↔ ∃ m ∈ decoratorNodes n, m.start.line ≤ k ∧ k ≤ lastLine m := by
  obtain ⟨f, hparse, hlines, hline⟩ : ∃ f, FunctionDef.parse longLead = .ok f ∧
      f.decoratorLines = [1, 2, 4, 5, 6, 8] ∧ f.defLine = 10 := by
    rw [longLead, FunctionDef.parse_ofList]
    exact exists_eq_ok (by decide +kernel)
  obtain ⟨m, hm, hends⟩ : ∃ n, root (Text.dedent longLead) = .ok n ∧
      ∀ m ∈ decoratorNodes n, ¬ EndsBlank m := by
    rw [longLead, Text.dedent, String.toList_ofList, root_ofList]
    exact exists_eq_ok (by decide +kernel)
  have hreturn : '\r' ∉ longLead.toList := by
    rw [longLead, String.toList_ofList]
    decide
  obtain ⟨-, -, n, hroot, -, -, hiff⟩ := decoratorLines_exact_iff hreturn hparse
  rw [(FunctionDef.parse_spec hparse).1, hm] at hroot
  obtain rfl := Except.ok.inj hroot
  refine ⟨f, hparse, hlines, hline, m, ?_, hiff.mpr hends⟩
  rw [(FunctionDef.parse_spec hparse).1, hm]

/-- The blank line that ends a decorator is none of its lines. -/
theorem not_mem_decoratorLines_of_blank : ¬ ∀ text f n, '\r' ∉ text.toList →
    FunctionDef.parse text = .ok f → root f.source = .ok n → ∀ k, k ∈ f.decoratorLines ↔
      ∃ m ∈ decoratorNodes n, m.start.line ≤ k ∧ k ≤ lastLine m := by
  intro h
  have hparse := eq_ok_of_isSome (x := FunctionDef.parse "@a \\\n\ndef f(): pass") (by decide +kernel)
  have hroot : root ((FunctionDef.parse "@a \\\n\ndef f(): pass").toOption.getD default).source =
      .ok ((root "@a \\\n\ndef f(): pass").toOption.getD default) := by
    rw [show ((FunctionDef.parse "@a \\\n\ndef f(): pass").toOption.getD default).source =
      "@a \\\n\ndef f(): pass" by decide +kernel]
    exact eq_ok_of_isSome (by decide +kernel)
  have hmem := (h _ _ _ (by decide) hparse hroot 2).mpr (by decide +kernel)
  exact absurd hmem (by decide +kernel)

end UdfBridge.Source
