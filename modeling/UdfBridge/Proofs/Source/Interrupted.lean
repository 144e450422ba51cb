import UdfBridge.Proofs.Grammar.Nodes
import UdfBridge.Proofs.Source.Remark

/-!
# Lists of parameters with a comment

A space in a list of parameters gets a comment and a line feed behind it. Where it stands directly in
an annotation or a default value and more of that follows than blanks, the expression is `Interrupted`.
Then the list of the text with the comment ends in the middle of the expression, and what follows is
neither a comma nor a parenthesis, so there is no such list. Otherwise both lists have one outline
(`Remark.parameters_cases`).

`Remark.Read P Q D p` says what becomes of a pattern on two texts: it is refused in both, matched in
both with one outline and no expression interrupted, or the match of the one text interrupts an
expression and `D` holds of what the other one is stuck at.
-/

namespace UdfBridge.Source

open Grammar
open Grammar.Pattern

variable {p q : Pattern Rule} {s t r u : List Char} {f g : Forest Rule} {rule : Rule}

/-- The rules of the expressions in a list of parameters. -/
def exprRules : List Rule := [.hintExpr, .defaultExpr]

/-- In the tree `f` the space between `before` and `after` stands directly in an annotation or a default
value, behind whole pieces of it, and more of it follows than the blanks behind the space. -/
def Interrupted (f : Forest Rule) (before after : List Char) : Prop :=
  ∃ x ∈ f.spots, x.rule ∈ exprRules ∧ ∃ y e, before = x.before ++ y ∧ x.inner.text = y ++ ' ' :: e ∧
    Chain (exprPiece []) (y ++ ' ' :: after) (' ' :: after) ∧
    (many gap.run after).1.text.length < e.length

namespace Remark

variable (x : Remark)

/-- An expression in a forest that stands at the start of a text is interrupted at the space. -/
def Interrupts (f : Forest Rule) (s : List Char) : Prop :=
  ∃ before, s = before ++ x.oldText ∧ Interrupted f before x.after

variable {x}

/-- A forest at the start of a text is interrupted at the space in that place only. -/
theorem interrupts_iff {before : List Char} (hs : s = before ++ x.oldText) :
    x.Interrupts f s ↔ Interrupted f before x.after := by
  constructor
  · rintro ⟨before', hs', h⟩
    rwa [List.append_cancel_right (hs.symm.trans hs')]
  · exact fun h => ⟨before, hs, h⟩

/-- Two forests are interrupted if one of them is, where it stands. -/
theorem interrupts_append (hs : s = f.text ++ r) :
    x.Interrupts (f ++ g) s ↔ x.Interrupts f s ∨ x.Interrupts g r := by
  constructor
  · rintro ⟨before, hbefore, y, hy, hrule, a, e, rfl, htext, hchain, hlt⟩
    rcases Forest.mem_spots_append.mp hy with hy | ⟨z, hz, rfl⟩
    · exact .inl ⟨_, hbefore, y, hy, hrule, a, e, rfl, htext, hchain, hlt⟩
    · refine .inr ⟨z.before ++ a, ?_, z, hz, hrule, a, e, rfl, htext, hchain, hlt⟩
      rw [hs, Spot.behind, List.append_assoc, List.append_assoc] at hbefore
      rw [List.append_cancel_left hbefore, List.append_assoc]
  · rintro (⟨before, hbefore, y, hy, hinner⟩ | ⟨before, rfl, y, hy, hrule, a, e, rfl, hinner⟩)
    · exact ⟨before, hbefore, y, Forest.mem_spots_append.mpr (.inl hy), hinner⟩
    · refine ⟨f.text ++ (y.before ++ a), by simp [hs], y.behind f.text,
        Forest.mem_spots_append.mpr (.inr ⟨y, hy, rfl⟩), hrule, a, e, ?_, hinner⟩
      rw [Spot.behind, List.append_assoc]

/-- The spots of a node are the node itself and those inside it. -/
theorem spots_node (rule : Rule) (f : Forest Rule) :
    (Forest.node rule f .nil).spots = ⟨[], rule, f⟩ :: f.spots := by
  simp [Forest.spots]

/-- A node that is no expression is interrupted if what is inside it is. -/
theorem interrupts_node (hrule : rule ∉ exprRules) :
    x.Interrupts (.node rule f .nil) s ↔ x.Interrupts f s := by
  refine exists_congr fun before => and_congr_right fun _ => ?_
  unfold Interrupted
  rw [spots_node, List.exists_mem_cons_iff, or_iff_right]
  exact fun h => hrule h.1

/-- The expression of a node is interrupted if the space stands directly in it. -/
theorem interrupts_expr (hrule : rule ∈ exprRules) (hf : f.spots = []) :
    x.Interrupts (.node rule f .nil) s ↔
      ∃ e, x.Crosses f s e ∧ (many gap.run x.after).1.text.length < e.length := by
  unfold Interrupts Interrupted
  rw [spots_node, hf]
  constructor
  · rintro ⟨before, rfl, y, hy, -, a, e, rfl, htext, hchain, hlt⟩
    obtain rfl := List.mem_singleton.mp hy
    exact ⟨e, ⟨a, htext, rfl, hchain⟩, hlt⟩
  · rintro ⟨e, ⟨a, htext, rfl, hchain⟩, hlt⟩
    exact ⟨a, rfl, _, List.mem_singleton_self _, hrule, a, e, rfl, htext, hchain, hlt⟩

/-- A pattern without expressions interrupts none. -/
theorem not_interrupts (hp : ∀ y ∈ p.named, y.1 ∉ exprRules) (h : p.run s = some (f, r)) :
    ¬ x.Interrupts f s := by
  rintro ⟨before, -, y, hy, hrule, -⟩
  have heach : f.Each fun rule _ => rule ∉ exprRules :=
    each_run (fun y hy _ _ _ _ => hp y hy) s f r h
  exact heach.of_mem_spots hy hrule

/-- Nothing is interrupted in an empty forest. -/
theorem not_interrupts_nil : ¬ x.Interrupts .nil s := by
  rintro ⟨before, -, y, hy, -⟩
  simp [Forest.spots] at hy

/-! ## Reading two texts -/

variable {P P' Q Q' R : List Char → List Char → Prop} {D D' : List Char → Prop} {step : Step Rule}

/-- A step is refused on both texts; it matches on both with one outline, and `Q` holds of the rests;
or it matches on both, an expression of the first match is interrupted, and `D` holds of the rest of
the second text. -/
inductive ReadAt (x : Remark) (Q : List Char → List Char → Prop) (D : List Char → Prop)
    (step : Step Rule) (s t : List Char) : Prop where
  | refused (hs : step s = none) (ht : step t = none)
  | matched (f : Forest Rule) (r : List Char) (g : Forest Rule) (u : List Char)
    (hs : step s = some (f, r)) (ht : step t = some (g, u)) (houtline : outline f = outline g)
    (hclear : ¬ x.Interrupts f s) (hrest : Q r u)
  | broken (f : Forest Rule) (r : List Char) (g : Forest Rule) (u : List Char)
    (hs : step s = some (f, r)) (ht : step t = some (g, u)) (hinterrupts : x.Interrupts f s)
    (hstuck : D u)

/-- The pattern is read so on all texts of which `P` holds. -/
def Read (x : Remark) (P Q : List Char → List Char → Prop) (D : List Char → Prop)
    (p : Pattern Rule) : Prop :=
  ∀ s t, P s t → x.ReadAt Q D p.run s t

namespace Read

/-- What holds of the rests may be widened. -/
theorem mono (h : x.Read P Q D p) (hQ : ∀ s t, Q s t → Q' s t) (hD : ∀ u, D u → D' u) :
    x.Read P Q' D' p := by
  intro s t hst
  cases h s t hst with
  | refused hs ht => exact .refused hs ht
  | matched f r g u hs ht houtline hclear hrest =>
    exact .matched f r g u hs ht houtline hclear (hQ r u hrest)
  | broken f r g u hs ht hinterrupts hstuck => exact .broken f r g u hs ht hinterrupts (hD u hstuck)

/-- A pattern without expressions that is read alike. -/
theorem of_alike (h : Alike P Q p.run) (hp : ∀ y ∈ p.named, y.1 ∉ exprRules) : x.Read P Q D p := by
  intro s t hst
  cases h s t hst with
  | refused hs ht => exact .refused hs ht
  | matched f r g u hs ht houtline hrest =>
    exact .matched f r g u hs ht houtline (not_interrupts hp hs) hrest

/-- What follows an interrupted expression matches, and leaves the second text stuck. -/
def Passes (D D' : List Char → Prop) (q : Pattern Rule) : Prop :=
  ∀ u, D u → q.isTotal = true ∧ ∃ g v, q.run u = some (g, v) ∧ D' v

/-- A sequence is read if both of its parts are, and its second part matches behind an expression
that is interrupted. -/
theorem seq (hp : x.Read P Q D p) (hq : x.Read Q R D' q) (hpasses : Passes D D' q) :
    x.Read P R D' (seq p q) := by
  intro s t hst
  cases hp s t hst with
  | refused hs ht => exact .refused (by rw [run, hs]) (by rw [run, ht])
  | matched f r g u hs ht houtline hclear hrest =>
    have hs' := lossless_run p _ _ _ hs
    cases hq r u hrest with
    | refused hr hu =>
      exact .refused (by simp only [run, hs, hr, Option.map_none])
        (by simp only [run, ht, hu, Option.map_none])
    | matched f' r' g' u' hr hu houtline' hclear' hrest' =>
      -- Nothing is interrupted in either part.
      refine .matched (f ++ f') r' (g ++ g') u' (run_seq.mpr ⟨f, r, f', hs, hr, rfl⟩)
        (run_seq.mpr ⟨g, u, g', ht, hu, rfl⟩) ?_ ?_ hrest'
      · rw [outline_append, outline_append, houtline, houtline']
      · rw [interrupts_append hs', not_or]
        exact ⟨hclear, hclear'⟩
    | broken f' r' g' u' hr hu hinterrupts hstuck =>
      exact .broken (f ++ f') r' (g ++ g') u' (run_seq.mpr ⟨f, r, f', hs, hr, rfl⟩)
        (run_seq.mpr ⟨g, u, g', ht, hu, rfl⟩) ((interrupts_append hs').mpr (.inr hinterrupts)) hstuck
  | broken f r g u hs ht hinterrupts hstuck =>
    -- The first part is broken, so the second one is read in the second text from where that is
    -- stuck.
    obtain ⟨htotal, g', v, hu, hstuck'⟩ := hpasses u hstuck
    obtain ⟨f', r', hr⟩ := exists_run_of_isTotal htotal r
    exact .broken (f ++ f') r' (g ++ g') v (run_seq.mpr ⟨f, r, f', hs, hr, rfl⟩)
      (run_seq.mpr ⟨g, u, g', ht, hu, rfl⟩)
      ((interrupts_append (lossless_run p _ _ _ hs)).mpr (.inl hinterrupts)) hstuck'

/-- Behind a pattern without expressions. -/
theorem behind (hp : Alike P Q p.run) (hnamed : ∀ y ∈ p.named, y.1 ∉ exprRules)
    (hq : x.Read Q R D q) : x.Read P R D (Pattern.seq p q) :=
  (of_alike (D := fun _ => False) hp hnamed).seq hq fun _ h => h.elim

/-- A choice is read if both of its patterns are. -/
theorem orElse (hp : x.Read P Q D p) (hq : x.Read P Q D q) : x.Read P Q D (orElse p q) := by
  intro s t hst
  cases hp s t hst with
  | refused hs ht =>
    cases hq s t hst with
    | refused hs' ht' =>
      exact .refused (run_orElse_eq_none.mpr ⟨hs, hs'⟩) (run_orElse_eq_none.mpr ⟨ht, ht'⟩)
    | matched f r g u hs' ht' houtline hclear hrest =>
      exact .matched f r g u (run_orElse.mpr (.inr ⟨hs, hs'⟩)) (run_orElse.mpr (.inr ⟨ht, ht'⟩))
        houtline hclear hrest
    | broken f r g u hs' ht' hinterrupts hstuck =>
      exact .broken f r g u (run_orElse.mpr (.inr ⟨hs, hs'⟩)) (run_orElse.mpr (.inr ⟨ht, ht'⟩))
        hinterrupts hstuck
  | matched f r g u hs ht houtline hclear hrest =>
    exact .matched f r g u (run_orElse.mpr (.inl hs)) (run_orElse.mpr (.inl ht)) houtline hclear
      hrest
  | broken f r g u hs ht hinterrupts hstuck =>
    exact .broken f r g u (run_orElse.mpr (.inl hs)) (run_orElse.mpr (.inl ht)) hinterrupts hstuck

/-- What may be left out is read if it is. -/
theorem optional (hp : x.Read P Q D p) (hQ : ∀ s t, P s t → Q s t) :
    x.Read P Q D (optional p) :=
  hp.orElse fun s t hst => .matched .nil s .nil t rfl rfl rfl not_interrupts_nil (hQ s t hst)

/-- A pattern is read as a node too, if this is neither a word nor an expression. -/
theorem node (hp : x.Read P Q D p) (hrule : rule ∉ wordRules ++ exprRules) :
    x.Read P Q D (node rule p) := by
  rw [List.mem_append, not_or] at hrule
  intro s t hst
  cases hp s t hst with
  | refused hs ht => exact .refused (by rw [run, hs]; rfl) (by rw [run, ht]; rfl)
  | matched f r g u hs ht houtline hclear hrest =>
    refine .matched _ r _ u (run_node.mpr ⟨f, hs, rfl⟩) (run_node.mpr ⟨g, ht, rfl⟩) ?_ ?_ hrest
    · simp only [outline, if_neg hrule.1, houtline]
    · rwa [interrupts_node hrule.2]
  | broken f r g u hs ht hinterrupts hstuck =>
    exact .broken _ r _ u (run_node.mpr ⟨f, hs, rfl⟩) (run_node.mpr ⟨g, ht, rfl⟩)
      ((interrupts_node hrule.2).mpr hinterrupts) hstuck

/-- A repetition, which ends where the second text is stuck. The induction is on the rests that the
matches leave. -/
theorem star (hp : x.Read P P D p) (hconsumes : p.consumes = true)
    (hstuck : ∀ u, D u → p.run u = none) : x.Read P P D (star p) := by
  have hstar : ∀ {s f r}, p.run s = some (f, r) → (Pattern.star p).run s =
      ((Pattern.star p).run r).map fun m => (f ++ m.1, m.2) := run_star_of_some hconsumes
  intro s
  induction s using rest_induction hconsumes with
  | step s ih =>
    intro t hst
    -- The rest is shorter, so the repetition goes on with it as it does from the start.
    cases hp s t hst with
    | refused hs ht =>
      exact .matched .nil s .nil t (by rw [run_star, many_of_none hs])
        (by rw [run_star, many_of_none ht]) rfl not_interrupts_nil hst
    | matched f r g u hs ht houtline hclear hrest =>
      have hs' := lossless_run p _ _ _ hs
      cases ih hs u hrest with
      | refused hr _ => simp [run_star] at hr
      | matched f' r' g' u' hr hu houtline' hclear' hrest' =>
        refine .matched (f ++ f') r' (g ++ g') u' (by rw [hstar hs, hr]; rfl)
          (by rw [hstar ht, hu]; rfl) ?_ ?_ hrest'
        · rw [outline_append, outline_append, houtline, houtline']
        · rw [interrupts_append hs', not_or]
          exact ⟨hclear, hclear'⟩
      | broken f' r' g' u' hr hu hinterrupts hstuck =>
        exact .broken (f ++ f') r' (g ++ g') u' (by rw [hstar hs, hr]; rfl)
          (by rw [hstar ht, hu]; rfl) ((interrupts_append hs').mpr (.inr hinterrupts)) hstuck
    | broken f r g u hs ht hinterrupts hu =>
      -- Where the second text is stuck no other match follows there.
      have hnone : (Pattern.star p).run u = some (.nil, u) := by
        rw [run_star, many_of_none (hstuck u hu)]
      exact .broken (f ++ (many p.run r).1) (many p.run r).2 (g ++ .nil) u
        (by rw [hstar hs, run_star]; rfl) (by rw [hstar ht, hnone]; rfl)
        ((interrupts_append (lossless_run p _ _ _ hs)).mpr (.inl hinterrupts)) hu

end Read

/-! ## Expressions -/

/-- Behind its blanks the text goes on with none of `cs`. -/
def Stuck (cs u : List Char) : Prop :=
  Avoids cs (many gap.run u).2

/-- Of an expression in one place that the space stands in, what is behind the space is
determined. -/
theorem Crosses.text_unique {e e' : List Char} (h : x.Crosses f s e) (h' : x.Crosses f s e') :
    e = e' := by
  obtain ⟨y, hy, rfl, -⟩ := h
  obtain ⟨z, hz, hyz, -⟩ := h'
  obtain rfl := List.append_cancel_right hyz
  exact (List.cons.inj (List.append_cancel_left (hy.symm.trans hz))).2

/-- The blanks behind the space end inside of the expression if it goes on behind them. -/
theorem length_lt_iff (ends : List Char) (s : List Char) :
    (many gap.run s).1.text.length < (many (exprPiece ends).run s).1.text.length ↔
      (many (exprPiece ends).run s).2.length < (many gap.run s).2.length := by
  have hgap := congrArg List.length ((lossless_run gap).many_text s)
  have hexpr := congrArg List.length ((lossless_run (exprPiece ends)).many_text s)
  rw [List.length_append] at hgap hexpr
  omega

/-- An annotation or a default value. -/
theorem read_expr {ends : List Char} (hends : ends ⊆ [',', '=']) (hrule : rule ∈ exprRules) :
    x.Read x.swap.Steady x.Loose (Stuck (')' :: ends)) (node rule (plus (exprPiece ends))) := by
  have hspace : ' ' ∉ ends := fun h => absurd (hends h) (by decide)
  have hwords : rule ∉ wordRules := by
    rintro hmem
    exact (by decide : ∀ rule ∈ exprRules, rule ∉ wordRules) rule hrule hmem
  -- An expression has no nodes.
  have hspots : ∀ {s f r}, (plus (exprPiece ends)).run s = some (f, r) → f.spots = [] := by
    intro s f r h
    have hnamed : (plus (exprPiece ends)).named = [] := rfl
    have heach : f.Each fun _ _ => False := each_run (fun y hy => by simp [hnamed] at hy) s f r h
    exact List.eq_nil_iff_forall_not_mem.mpr fun y hy => heach.of_mem_spots hy
  have hout : ∀ {s f r}, (plus (exprPiece ends)).run s = some (f, r) →
      outline (.node rule f .nil) = .node rule .nil .nil := by
    intro s f r h
    rw [outline, if_neg hwords, outline_run rfl h, outline]
  intro s t hst
  cases exprAt_plus hspace hst with
  | refused hs ht => exact .refused (by rw [run, hs]; rfl) (by rw [run, ht]; rfl)
  | matched f r g u hs ht hclear hrest =>
    refine .matched _ r _ u (run_node.mpr ⟨f, hs, rfl⟩) (run_node.mpr ⟨g, ht, rfl⟩)
      ((hout hs).trans (hout ht).symm) ?_ (.inl hrest)
    rw [interrupts_expr hrule (hspots hs)]
    rintro ⟨e, hcrosses, -⟩
    exact hclear e hcrosses
  | cut f g hs ht hcrosses =>
    have hcut := gaps_cutText (x := x)
    rcases blank_or_stuck hends x.after with ⟨hlt, havoids⟩ | ⟨hle, hblank⟩
    · -- The expression goes on behind the blanks, so it is interrupted.
      refine .broken _ _ _ _ (run_node.mpr ⟨f, hs, rfl⟩) (run_node.mpr ⟨g, ht, rfl⟩) ?_ ?_
      · exact (interrupts_expr hrule (hspots hs)).mpr ⟨_, hcrosses, (length_lt_iff ends _).mpr hlt⟩
      · rwa [Stuck, hcut]
    · refine .matched _ _ _ _ (run_node.mpr ⟨f, hs, rfl⟩) (run_node.mpr ⟨g, ht, rfl⟩)
        ((hout hs).trans (hout ht).symm) ?_ (.inr ⟨hblank.trans hcut.symm, ?_⟩)
      · -- The expression ends with the blanks, so nothing more of it follows.
        rw [interrupts_expr hrule (hspots hs)]
        rintro ⟨e, hcrosses', hlt⟩
        obtain rfl := hcrosses.text_unique hcrosses'
        have := (length_lt_iff ends _).mp hlt
        omega
      · rw [hblank]
        exact many_suffix gap x.after

/-! ## Items -/

/-- The characters that may follow an item of a list of parameters. -/
def itemEnds : List Char := [')', ',']

/-- Texts that go on with the same tokens go on so loosely too. -/
theorem loose_of_steady (s t : List Char) (h : x.swap.Steady s t) : x.Loose s t := .inl h

/-- Blanks are read alike. -/
theorem alike_spaces : Alike x.swap.Steady x.swap.Steady (star gap).run :=
  alike_gaps.mono loose_of_steady fun _ _ => id

/-- A name is read alike. -/
theorem alike_identifier : Alike x.swap.Steady x.swap.Steady identifier.run :=
  Swap.copies_identifier.alike

/-- A sign, and an expression behind it. -/
theorem read_marked {c : Char} {ends : List Char} (hc : c ∉ tokenSigns) (hends : ends ⊆ [',', '='])
    (hrule : rule ∈ exprRules) : x.Read x.swap.Steady x.Loose (Stuck (')' :: ends))
      (optional (seq (chr c) (seq (star gap) (node rule (plus (exprPiece ends)))))) :=
  ((Read.behind (Swap.alike_mark hc) (List.forall_mem_nil _)
    (Read.behind alike_spaces (List.forall_mem_nil _) (read_expr hends hrule)))).optional
      loose_of_steady

/-- An annotation is read. If it is interrupted, none of the characters that may end it stands behind
the blanks there. -/
theorem read_hint : x.Read x.swap.Steady x.Loose (Stuck [')', ',', '=']) (optional hint) :=
  read_marked (by decide) (List.Subset.refl _) (by decide)

/-- A default value behind the annotation. -/
theorem read_default : x.Read x.Loose x.Loose (Stuck itemEnds)
    (seq (star gap) (optional defaultValue)) :=
  Read.behind alike_gaps (List.forall_mem_nil _) (read_marked (by decide) (by decide) (by decide))

/-- A text that goes on with none of some characters goes on with none of fewer. -/
theorem Stuck.mono {cs cs' : List Char} (h : Stuck cs u) (hcs : cs' ⊆ cs) : Stuck cs' u :=
  Avoids.mono h hcs

/-- Behind the blanks the text is stuck as well. -/
theorem Stuck.rest {cs : List Char} (h : Stuck cs u) : Stuck cs (many gap.run u).2 := by
  rwa [Stuck, many_many]

/-- Where the text is stuck, no pattern matches behind the blanks that starts with one of `cs`. -/
theorem Stuck.run_eq_none {cs : List Char} (h : Stuck cs u)
    (hpeek : ∀ c ∉ cs, p.peek c = some false) : (seq (star gap) p).run u = none := by
  obtain ⟨c, hc, v, hv⟩ := h
  rw [run, run_star]
  simp only [hv, run_of_peek_false (hpeek c hc), Option.map_none]

/-- Behind an interrupted annotation there is no default value, and the text stays stuck. -/
theorem passes_default : Read.Passes (Stuck [')', ',', '=']) (Stuck itemEnds)
    (seq (star gap) (optional defaultValue)) := by
  intro u hu
  have hnone : defaultValue.run (many gap.run u).2 = none := by
    obtain ⟨d, hd, v, hv⟩ := hu
    rw [hv]
    refine run_of_peek_false ?_ v
    have hne : d ≠ '=' := fun e => hd (by simp [e])
    simp [defaultValue, inOrder, peek, chr, hne]
  exact ⟨rfl, _, _, run_seq.mpr ⟨_, _, .nil, run_star, run_orElse.mpr (.inr ⟨hnone, rfl⟩), rfl⟩,
    hu.rest.mono (by decide)⟩

/-- A parameter is read. If it is interrupted, no character that follows an item stands there. -/
theorem read_parameter : x.Read x.swap.Steady x.Loose (Stuck itemEnds) parameter := by
  have hhint : x.Read x.swap.Steady x.Loose (Stuck itemEnds)
      (seq (optional hint) (seq (star gap) (optional defaultValue))) :=
    read_hint.seq read_default passes_default
  exact (Read.behind alike_identifier (by decide)
    (Read.behind alike_spaces (List.forall_mem_nil _) hhint)).node (by decide)

/-- A parameter for any number of arguments, behind its stars. -/
theorem read_variadic {stars : Pattern Rule} (hstars : Alike x.swap.Steady x.swap.Steady stars.run)
    (hnamed : stars.named = []) (hrule : rule ∉ wordRules ++ exprRules) :
    x.Read x.swap.Steady x.Loose (Stuck itemEnds) (node rule <| seq stars <|
      seq (star gap) <| seq identifier <| seq (star gap) (optional hint)) := by
  have hhint : x.Read x.swap.Steady x.Loose (Stuck itemEnds) (optional hint) :=
    read_hint.mono (fun _ _ => id) fun _ h => h.mono (by decide)
  refine (Read.behind hstars (by simp [hnamed]) (Read.behind alike_spaces (List.forall_mem_nil _)
    (Read.behind alike_identifier (by decide)
      (Read.behind alike_spaces (List.forall_mem_nil _) hhint)))).node hrule

/-- An item of a list is read. -/
theorem read_parameterItem : x.Read x.swap.Steady x.Loose (Stuck itemEnds) parameterItem := by
  have hmarker : ∀ (c : Char) (rule : Rule), c ∉ tokenSigns → rule ∉ wordRules →
      rule ∉ exprRules → x.Read x.swap.Steady x.Loose (Stuck itemEnds) (node rule (chr c)) :=
    fun c rule hc hword hexpr => Read.of_alike
      (((Swap.alike_mark hc).node hword).rest loose_of_steady) (List.forall_mem_singleton.mpr hexpr)
  exact (read_variadic (Swap.alike_word (by decide)) rfl (by decide)).orElse
    ((read_variadic (Swap.alike_mark (by decide)) rfl (by decide)).orElse
      ((hmarker '*' _ (by decide) (by decide) (by decide)).orElse
        ((hmarker '/' _ (by decide) (by decide) (by decide)).orElse read_parameter)))

/-! ## Lists of parameters -/

/-- One more item behind a comma is read. -/
theorem read_nextItem : x.Read x.Loose x.Loose (Stuck itemEnds) nextItem :=
  Read.behind alike_gaps (List.forall_mem_nil _)
    (Read.behind (Swap.alike_mark (by decide)) (List.forall_mem_nil _)
      (Read.behind alike_spaces (List.forall_mem_nil _) read_parameterItem))

/-- A last comma. -/
theorem read_lastComma : x.Read x.Loose x.Loose (Stuck itemEnds)
    (optional (seq (star gap) (chr ','))) := by
  have hcomma : Alike x.swap.Steady x.Loose (chr ',' : Pattern Rule).run :=
    (Swap.alike_mark (by decide)).rest loose_of_steady
  exact Read.of_alike ((alike_gaps.seq hcomma).optional fun _ _ => id) (List.forall_mem_nil _)

/-- A list of items is read. -/
theorem read_parameterList : x.Read x.swap.Steady x.Loose (Stuck itemEnds) parameterList := by
  have hpeek : ∀ c ∉ itemEnds, c ≠ ',' := fun c hc e => hc (by simp [e, itemEnds])
  have hcomma : ∀ u, Stuck itemEnds u → (seq (star gap) (chr ',') : Pattern Rule).run u = none :=
    fun u hu => hu.run_eq_none fun c hc => by simp [peek, chr, hpeek c hc]
  have hnext : ∀ u, Stuck itemEnds u → nextItem.run u = none :=
    fun u hu => hu.run_eq_none fun c hc => by simp [inOrder, peek, chr, hpeek c hc]
  have hitems : x.Read x.Loose x.Loose (Stuck itemEnds) (star nextItem) :=
    read_nextItem.star rfl hnext
  have hlast : ∀ u, Stuck itemEnds u →
      (optional (seq (star gap) (chr ',')) : Pattern Rule).run u = some (.nil, u) :=
    fun u hu => run_orElse.mpr (.inr ⟨hcomma u hu, rfl⟩)
  have hrest := hitems.seq read_lastComma fun u hu => ⟨rfl, .nil, u, hlast u hu, hu⟩
  refine read_parameterItem.seq hrest fun u hu => ⟨rfl, .nil ++ .nil, u, ?_, hu⟩
  have hitems : (star nextItem).run u = some (.nil, u) := by rw [run_star, many_of_none (hnext u hu)]
  exact run_seq.mpr ⟨.nil, u, .nil, hitems, hlast u hu, rfl⟩

/-- What stands between the parentheses. -/
theorem read_inside : x.Read x.swap.Steady x.swap.Steady (Avoids itemEnds)
    (seq (star gap) (optional (seq parameterList (star gap)))) := by
  have hgaps : x.Read x.Loose x.swap.Steady (Avoids itemEnds) (star gap) :=
    Read.of_alike alike_gaps (List.forall_mem_nil _)
  have hlist := read_parameterList.seq hgaps fun u hu => ⟨rfl, _, _, run_star, hu⟩
  exact Read.behind alike_spaces (List.forall_mem_nil _) (hlist.optional fun _ _ => id)

/-- **A list of parameters with a comment** is matched as the other one, up to the place behind it,
exactly if no expression is interrupted. -/
theorem parameters_cases (hst : x.swap.Steady s t) (hs : parameters.run s = some (f, r)) :
    (¬ x.Interrupts f s ∧ ∃ g u, parameters.run t = some (g, u) ∧ outline f = outline g ∧
        x.swap.Steady r u) ∨ (x.Interrupts f s ∧ parameters.run t = none) := by
  have hopen : Alike x.swap.Steady x.swap.Steady (chr '(' : Pattern Rule).run :=
    Swap.alike_chr (by simp [swap, quotes])
  have hclose : Alike x.swap.Steady x.swap.Steady (chr ')' : Pattern Rule).run :=
    Swap.alike_mark (by decide)
  have hinside := Read.behind hopen (List.forall_mem_nil _) (read_inside (x := x)) s t hst
  -- The parenthesis at the end is looked at by itself, for a text may be stuck in front of it.
  have hparameters : ∀ s, parameters.run s = (node .parameters (seq (seq (chr '(')
      (seq (star gap) (optional (seq parameterList (star gap))))) (chr ')'))).run s := by
    intro s
    rw [run, show seq (chr '(') (seq (star gap) (optional (seq parameterList (star gap)))) =
      inOrder [chr '(', star gap, optional (seq parameterList (star gap))] from rfl,
      run_inOrder_seq]
    rfl
  rw [hparameters] at hs ⊢
  obtain ⟨f, hrun, rfl⟩ := run_node.mp hs
  obtain ⟨f₁, r₁, f₂, hs₁, hs₂, rfl⟩ := run_seq.mp hrun
  have hnone : ¬ x.Interrupts f₂ r₁ := not_interrupts (List.forall_mem_nil _) hs₂
  rw [interrupts_node (by decide), interrupts_append (lossless_run _ _ _ _ hs₁),
    or_iff_left hnone]
  cases hinside with
  | refused hs' _ => simp [hs₁] at hs'
  | matched f r g u hs' ht houtline hclear hrest =>
    obtain ⟨rfl, rfl⟩ := Prod.mk.inj (Option.some.inj (hs₁.symm.trans hs'))
    cases hclose r₁ u hrest with
    | refused hr _ => simp [hs₂] at hr
    | matched f' r' g' u' hr hu houtline' hrest' =>
      obtain ⟨rfl, rfl⟩ := Prod.mk.inj (Option.some.inj (hs₂.symm.trans hr))
      refine .inl ⟨hclear, _, u', run_node.mpr ⟨g ++ g', run_seq.mpr ⟨g, u, g', ht, hu, rfl⟩, rfl⟩,
        ?_, hrest'⟩
      have hwords : Rule.parameters ∉ wordRules := by decide
      simp only [outline, if_neg hwords, outline_append, houtline, houtline']
  | broken f r g u hs' ht hinterrupts hstuck =>
    obtain ⟨rfl, rfl⟩ := Prod.mk.inj (Option.some.inj (hs₁.symm.trans hs'))
    -- The text is stuck in front of another character than the parenthesis.
    obtain ⟨c, hc, v, rfl⟩ := hstuck
    have hne : c ≠ ')' := fun e => hc (by simp [e, itemEnds])
    have hlast : (chr ')' : Pattern Rule).run (c :: v) = none := by simp [chr, run, hne]
    refine .inr ⟨hinterrupts, ?_⟩
    rw [run, run, ht]
    simp only [hlast, Option.map_none]

end Remark

end UdfBridge.Source
