import UdfBridge.Proofs.Grammar.Match
import UdfBridge.Source.Function

/-!
# How a definition divides its text

A text that is a definition falls into three parts: the lead, which holds blank lines and decorators,
the header, and the body. A `Division` is such a partition together with the two matches that find
it, so `Division.root` is the tree of the text, and `root_eq_ok_iff` says that every tree is one.

The lead leaves a text with neither blank lines nor decorators at its start (`many_rest_of_lead`).
So a definition that starts at its header has an empty lead.
-/

namespace UdfBridge.Source

open Grammar
open Grammar.Pattern
open Text (Position)

/-- One decorator and the blank lines behind it. -/
def decoratorGroup : Pattern Rule :=
  seq decorator (star blankLine)

/-- What stands before the header: blank lines and decorators. -/
def leadPattern : Pattern Rule :=
  seq (star blankLine) (star decoratorGroup)

/-- The forest of a text without nodes. -/
def plainForest : List Char → Forest Rule
  | [] => .nil
  | c :: s => .char c (plainForest s)

/-- The forest of a text without nodes has that text. -/
@[simp] theorem text_plainForest (s : List Char) : (plainForest s).text = s := by
  induction s with
  | nil => rfl
  | cons c s ih => rw [plainForest, Forest.text, ih]

/-- The body takes all that is left. -/
theorem run_body (s : List Char) : body.run s = some (.node .body (plainForest s) .nil, []) := by
  have hmany : many any.run s = (plainForest s, []) := by
    induction s with
    | nil => exact many_of_none rfl
    | cons c s ih =>
      rw [many_of_some (f := .char c .nil) (r := s) rfl (by simp), ih]
      rfl
  rw [body, run, run_star, hmany]
  rfl

/-- The end of the text is where nothing is left. -/
theorem run_endOfInput {s r : List Char} {f : Forest Rule} :
    endOfInput.run s = some (f, r) ↔ s = [] ∧ f = .node .endOfInput .nil .nil ∧ r = [] := by
  cases s with
  | nil =>
    have : endOfInput.run [] = some (.node .endOfInput .nil .nil, []) := rfl
    rw [this, Option.some.injEq, Prod.mk.injEq]
    constructor
    · rintro ⟨rfl, rfl⟩
      exact ⟨rfl, rfl, rfl⟩
    · rintro ⟨-, rfl, rfl⟩
      exact ⟨rfl, rfl⟩
  | cons c s =>
    have : endOfInput.run (c :: s) = none := rfl
    rw [this]
    simp

/-- A partition of a text into a lead, a header and a body, as the grammar makes it. -/
structure Division (s : List Char) where
  /-- The match of the lead. -/
  lead : Forest Rule
  /-- The match inside the header. -/
  header : Forest Rule
  /-- The text of the body. -/
  body : List Char
  /-- The lead ends where the header starts. -/
  run_lead : leadPattern.run s = some (lead, header.text ++ body)
  /-- The header ends where the body starts. -/
  run_header : defHeader.run (header.text ++ body) = some (.node .defHeader header .nil, body)

namespace Division

variable {s : List Char}

/-- The nodes from the header on. -/
def tail (d : Division s) : Forest Rule :=
  .node .defHeader d.header (.node .body (plainForest d.body) (.node .endOfInput .nil .nil))

/-- The tree of the text. -/
def root (d : Division s) : Node Rule :=
  ⟨.source, .origin, d.lead ++ d.tail⟩

/-- The parts make up the text. -/
theorem text_eq (d : Division s) : s = d.lead.text ++ (d.header.text ++ d.body) :=
  lossless_run leadPattern _ _ _ d.run_lead

/-- The tree has the text of its parts. -/
theorem chars_root (d : Division s) : d.root.chars = d.lead.text ++ (d.header.text ++ d.body) := by
  simp [Node.chars, root, tail, Forest.text]

/-- A text that a definition divides is a definition. -/
theorem run_source (d : Division s) :
    source.run s = some (.node .source (d.lead ++ d.tail) .nil, []) := by
  obtain ⟨f₁, s₁, f₂, hblank, hgroups, hlead⟩ := run_seq.mp d.run_lead
  refine run_node.mpr ⟨_, ?_, rfl⟩
  rw [hlead, Forest.append_assoc]
  refine run_seq.mpr ⟨f₁, s₁, _, hblank, ?_, rfl⟩
  refine run_seq.mpr ⟨f₂, d.header.text ++ d.body, _, hgroups, ?_, rfl⟩
  refine run_seq.mpr ⟨_, d.body, _, d.run_header, ?_, rfl⟩
  exact run_seq.mpr ⟨_, [], _, run_body d.body, run_endOfInput.mpr ⟨rfl, rfl, rfl⟩, rfl⟩

end Division

/-- A definition divides its text. -/
theorem exists_division {s r : List Char} {f : Forest Rule} (h : source.run s = some (f, r)) :
    ∃ d : Division s, f = .node .source (d.lead ++ d.tail) .nil := by
  obtain ⟨g, hg, rfl⟩ := run_node.mp h
  obtain ⟨f₁, s₁, g₁, hblank, h₁, rfl⟩ := run_seq.mp hg
  obtain ⟨f₂, s₂, g₂, hgroups, h₂, rfl⟩ := run_seq.mp h₁
  obtain ⟨f₃, s₃, g₃, hheader, h₃, rfl⟩ := run_seq.mp h₂
  obtain ⟨f₄, s₄, g₄, hbody, hend, rfl⟩ := run_seq.mp h₃
  obtain ⟨header, -, rfl⟩ := run_node.mp hheader
  have hs₂ : s₂ = header.text ++ s₃ := by
    have := lossless_run defHeader _ _ _ hheader
    simpa [Forest.text] using this
  -- The body takes all that is left, so nothing stands behind it.
  rw [run_body, Option.some.injEq, Prod.mk.injEq] at hbody
  obtain ⟨rfl, rfl⟩ := hbody
  obtain ⟨-, rfl, -⟩ := run_endOfInput.mp hend
  subst hs₂
  refine ⟨⟨f₁ ++ f₂, header, s₃, run_seq.mpr ⟨f₁, s₁, f₂, hblank, hgroups, rfl⟩, hheader⟩, ?_⟩
  rw [Division.tail, Forest.append_assoc]
  rfl

/-- The trees of definitions are those of the divisions of their texts. -/
theorem root_eq_ok_iff {text : String} {n : Node Rule} :
    root text = .ok n ↔ ∃ d : Division text.toList, n = d.root := by
  unfold root parse? Rule.pattern
  constructor
  · intro h
    cases hrun : source.run text.toList with
    | none => simp [hrun] at h
    | some m =>
      obtain ⟨f, r⟩ := m
      obtain ⟨d, rfl⟩ := exists_division hrun
      simp only [hrun, Option.map_some, Forest.nodes, Except.ok.injEq] at h
      exact ⟨d, h.symm⟩
  · rintro ⟨d, rfl⟩
    rw [d.run_source]
    rfl

/-! ## The lead -/

/-- Blank lines bring no nodes. -/
theorem topRules_blankLine : blankLine.topRules = [] := rfl

/-- The nodes of a lead are decorators. -/
theorem topRules_lead {s r : List Char} {f : Forest Rule} (h : leadPattern.run s = some (f, r)) :
    ∀ rule ∈ f.topRules, rule = .decorator := by
  intro rule hrule
  have hsub := topRules_run leadPattern s f r h
  have hlead : leadPattern.topRules = [.decorator] := rfl
  rw [hlead] at hsub
  exact List.mem_singleton.mp (hsub hrule)

/-- Blank lines stop where they would stop again, so what a group of a decorator and blank lines
leaves does not start with a blank line. -/
theorem many_blankLine_of_group {s r : List Char} {f : Forest Rule}
    (h : decoratorGroup.run s = some (f, r)) : many blankLine.run r = (.nil, r) := by
  obtain ⟨f₁, r₁, f₂, -, hblank, -⟩ := run_seq.mp h
  rw [run_star, Option.some.injEq] at hblank
  have := many_many blankLine.run r₁
  rwa [hblank] at this

/-- Neither blank lines nor decorators follow a lead. -/
theorem many_rest_of_lead {s r : List Char} {f : Forest Rule}
    (h : leadPattern.run s = some (f, r)) :
    many blankLine.run r = (.nil, r) ∧ many decoratorGroup.run r = (.nil, r) := by
  obtain ⟨f₁, r₁, f₂, hblank, hgroups, -⟩ := run_seq.mp h
  rw [run_star, Option.some.injEq] at hblank hgroups
  have hstart : many blankLine.run r₁ = (.nil, r₁) := by
    have := many_many blankLine.run s
    rwa [hblank] at this
  constructor
  · -- Every group ends with blank lines, so they cannot go on behind the last one.
    have hstop : many blankLine.run (many decoratorGroup.run r₁).2 =
        (.nil, (many decoratorGroup.run r₁).2) :=
      many_invariant (P := fun t => many blankLine.run t = (.nil, t))
        (fun _ _ _ _ hgroup => many_blankLine_of_group hgroup) hstart
    rwa [hgroups] at hstop
  · have := many_many decoratorGroup.run r₁
    rwa [hgroups] at this

/-- A lead without nodes is a run of blank lines. -/
theorem many_blankLine_of_topRules_eq_nil {s r : List Char} {f : Forest Rule}
    (h : leadPattern.run s = some (f, r)) (hf : f.topRules = []) :
    many blankLine.run s = (f, r) := by
  obtain ⟨f₁, r₁, f₂, hblank, hgroups, rfl⟩ := run_seq.mp h
  rw [run_star, Option.some.injEq] at hblank hgroups
  rw [Forest.topRules_append, List.append_eq_nil_iff] at hf
  have hnone : (f₂, r) = (.nil, r₁) := by
    cases hstep : decoratorGroup.run r₁ with
    | none => rw [← hgroups, many_of_none hstep]
    | some m =>
      obtain ⟨g, t⟩ := m
      by_cases hlt : t.length < r₁.length
      · -- A group brings the node of its decorator.
        rw [many_of_some hstep hlt, Prod.mk.injEq] at hgroups
        obtain ⟨g₁, t₁, g₂, hdecorator, -, rfl⟩ := run_seq.mp hstep
        obtain ⟨inner, -, rfl⟩ := run_node.mp hdecorator
        rw [← hgroups.1] at hf
        simp [Forest.topRules] at hf
      · rw [← hgroups, many_of_not_lt hstep hlt]
  obtain ⟨rfl, rfl⟩ := Prod.mk.inj hnone
  rw [hblank, Forest.append_nil]

/-! ## Where the lead ends -/

/-- A line break stands between `a` and `r`; a carriage return is one by itself only where no line
feed follows. -/
def EndsLine (a r : List Char) : Prop :=
  a.getLast? = some '\n' ∨ (a.getLast? = some '\r' ∧ r.head? ≠ some '\n')

/-- What stands before a text does not change how it ends. -/
theorem EndsLine.append_left {b r : List Char} (h : EndsLine b r) (a : List Char) :
    EndsLine (a ++ b) r := by
  unfold EndsLine at h ⊢
  rw [List.getLast?_append]
  rcases h with hb | ⟨hb, hr⟩
  · rw [hb]
    exact .inl rfl
  · rw [hb]
    exact .inr ⟨rfl, hr⟩

/-- The matches of the pattern end with a line break. -/
def EndsLines (p : Pattern Rule) : Prop :=
  ∀ s f r, p.run s = some (f, r) → EndsLine f.text r

/-- The matches of the pattern are empty or end with a line break. -/
def KeepsLineStart (p : Pattern Rule) : Prop :=
  ∀ s f r, p.run s = some (f, r) → f.text = [] ∨ EndsLine f.text r

/-- A sequence ends with a line break if its second part does. -/
theorem EndsLines.seq {p q : Pattern Rule} (hq : EndsLines q) : EndsLines (seq p q) := by
  intro s f r h
  obtain ⟨f₁, r₁, f₂, -, h₂, rfl⟩ := run_seq.mp h
  rw [Forest.text_append]
  exact (hq _ _ _ h₂).append_left _

/-- A pattern ends with a line break as a node too. -/
theorem EndsLines.node {rule : Rule} {p : Pattern Rule} (hp : EndsLines p) :
    EndsLines (node rule p) := by
  intro s f r h
  obtain ⟨g, hg, rfl⟩ := run_node.mp h
  have hend := hp _ _ _ hg
  rwa [Forest.text, Forest.text, List.append_nil]

/-- What ends with a line break leaves the start of a line. -/
theorem EndsLines.keepsLineStart {p : Pattern Rule} (hp : EndsLines p) : KeepsLineStart p :=
  fun s f r h => .inr (hp s f r h)

/-- A sequence leaves the start of a line if both of its parts do. -/
theorem KeepsLineStart.seq {p q : Pattern Rule} (hp : KeepsLineStart p) (hq : KeepsLineStart q) :
    KeepsLineStart (seq p q) := by
  intro s f r h
  obtain ⟨f₁, r₁, f₂, h₁, h₂, rfl⟩ := run_seq.mp h
  rw [Forest.text_append]
  rcases hq _ _ _ h₂ with hnil | hend
  · -- Nothing is matched behind the first pattern, so its match ends where the whole ends.
    have hr₁ : r₁ = r := by
      have := lossless_run q _ _ _ h₂
      rwa [hnil, List.nil_append] at this
    rw [hnil, List.append_nil, ← hr₁]
    exact hp _ _ _ h₁
  · exact .inr (hend.append_left _)

/-- A repetition leaves the start of a line if each of its matches does. -/
theorem KeepsLineStart.star {p : Pattern Rule} (hp : KeepsLineStart p) :
    KeepsLineStart (star p) := by
  intro s f r h
  refine run_star_induction (Q := fun _ f r => f.text = [] ∨ EndsLine f.text r)
    (fun _ => .inl rfl) (fun {s f r g t} hrun hrest ih => ?_) h
  rw [Forest.text_append]
  rcases ih with hnil | hend
  · -- The later matches are empty, so the first one ends where the repetition does.
    have hr : r = t := by
      have := lossless_run _ _ _ _ hrest
      rwa [hnil, List.nil_append] at this
    rw [hnil, List.append_nil, ← hr]
    exact hp _ _ _ hrun
  · exact .inr (hend.append_left _)

/-- A line break is a line break. -/
theorem endsLines_lineBreak : EndsLines lineBreak := by
  intro s f r h
  rcases run_orElse.mp h with h | ⟨-, h⟩
  · obtain ⟨-, rfl⟩ := run_chr.mp h
    exact .inl rfl
  · rcases run_orElse.mp h with h | ⟨hpair, h⟩
    · obtain ⟨f₁, r₁, f₂, h₁, h₂, rfl⟩ := run_seq.mp h
      obtain ⟨-, rfl⟩ := run_chr.mp h₁
      obtain ⟨-, rfl⟩ := run_chr.mp h₂
      exact .inl rfl
    · -- A carriage return is read alone only if no line feed follows, or it is read as a pair.
      obtain ⟨rfl, rfl⟩ := run_chr.mp h
      refine .inr ⟨rfl, ?_⟩
      intro hhead
      obtain ⟨t, rfl⟩ := List.head?_eq_some_iff.mp hhead
      have : (word ['\r', '\n'] : Pattern Rule).run ('\r' :: '\n' :: t) =
          some (.char '\r' (.char '\n' .nil), t) := rfl
      rw [this] at hpair
      simp at hpair

/-- A blank line ends with a line break. -/
theorem endsLines_blankLine : EndsLines blankLine :=
  endsLines_lineBreak.seq.seq

/-- A decorator ends with a line break. -/
theorem endsLines_decorator : EndsLines decorator :=
  endsLines_lineBreak.seq.seq.seq.seq.seq.node

/-- The header starts a line. -/
theorem keepsLineStart_leadPattern : KeepsLineStart leadPattern := by
  have hblanks : KeepsLineStart (star blankLine) := endsLines_blankLine.keepsLineStart.star
  exact hblanks.seq (endsLines_decorator.keepsLineStart.seq hblanks).star

end UdfBridge.Source
