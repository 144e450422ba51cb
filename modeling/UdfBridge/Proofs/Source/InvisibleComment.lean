import UdfBridge.Proofs.Source.Dedented
import UdfBridge.Proofs.Source.Interrupted
import UdfBridge.Proofs.Source.SameDefinition

/-!
# Comments between parentheses

A space in the list of parameters of a definition gets a comment and a line feed behind it. The list as
a whole is a group in brackets, so the lead and the start of the header are read as before, and so is
what follows the list (`Swap.ofGroups`). The list itself is read as before exactly if the comment
interrupts no annotation and no default value. So that is when the text is a definition, and then it is
the same one (`comment_invisible_iff`).
-/

namespace UdfBridge.Source

open Grammar
open Grammar.Pattern

variable {s t n r : List Char} {f g : Forest Rule}

/-- The space between `before` and what follows stands in the list of parameters of the tree. -/
def InParameters (n : Node Rule) (before : List Char) : Prop :=
  ∃ x ∈ n.inner.spots, x.rule = .parameters ∧ ∃ u v, before = x.before ++ u ∧
    x.inner.text = u ++ ' ' :: v

/-- Whether a space stands in the list of parameters can be seen from the places and texts of the
nodes. -/
theorem inParameters_iff {m : Node Rule} {before : List Char} : InParameters m before ↔
    ∃ x ∈ m.inner.spots, x.rule = .parameters ∧ x.before <+: before ∧
      before.drop x.before.length ++ [' '] <+: x.inner.text := by
  refine exists_congr fun x => and_congr_right fun _ => and_congr_right fun _ => ?_
  constructor
  · rintro ⟨u, v, rfl, htext⟩
    refine ⟨List.prefix_append _ _, v, ?_⟩
    rw [List.drop_left, htext, List.append_assoc]
    rfl
  · rintro ⟨⟨u, rfl⟩, v, hv⟩
    rw [List.drop_left, List.append_assoc] at hv
    exact ⟨u, v, rfl, hv.symm⟩

instance (n : Node Rule) (before : List Char) : Decidable (InParameters n before) :=
  decidable_of_iff _ inParameters_iff.symm

/-! ## The list of parameters in a definition -/

/-- The header of a definition in three parts, of which the list of parameters is the second one. -/
structure Parting (d : Division s) where
  /-- The match before the list. -/
  start : Forest Rule
  /-- The text behind the parenthesis that opens the list. -/
  opened : List Char
  /-- The match inside the list. -/
  list : Forest Rule
  /-- The text behind the list. -/
  rest : List Char
  /-- The match behind the list. -/
  stop : Forest Rule
  /-- The parts make up the header. -/
  eq : d.header = start ++ (.node .parameters list .nil ++ stop)
  run_start : headerStart.run (d.header.text ++ d.body) = some (start, '(' :: opened)
  run_list : parameters.run ('(' :: opened) = some (.node .parameters list .nil, rest)
  run_stop : headerEnd.run rest = some (stop, d.body)

/-- Every definition has a list of parameters. -/
theorem exists_parting (d : Division s) : Nonempty (Parting d) := by
  have hheader := d.run_header
  rw [run_defHeader] at hheader
  obtain ⟨g, hg, heq⟩ := run_node.mp hheader
  obtain rfl : d.header = g := by simpa using heq
  obtain ⟨a, t, b, hstart, hrest, hparts⟩ := run_seq.mp hg
  obtain ⟨l, r, c, hlist, hstop, rfl⟩ := run_seq.mp hrest
  obtain ⟨list, hinside, rfl⟩ := run_node.mp hlist
  obtain ⟨_, o, _, hopen, -⟩ := run_seq.mp hinside
  obtain ⟨rfl, -⟩ := run_chr.mp hopen
  exact ⟨⟨a, o, list, r, c, hparts, hstart, hlist, hstop⟩⟩

namespace Parting

variable {d : Division s} (P : Parting d)

/-- What follows the header: the body, and the end of the text. -/
theorem exists_run_tail (d : Division s) : ∃ g, d.tail = .node .defHeader d.header .nil ++ g ∧
    (seq body endOfInput).run d.body = some (g, []) :=
  ⟨_, rfl, run_seq.mpr ⟨_, [], _, run_body d.body, run_endOfInput.mpr ⟨rfl, rfl, rfl⟩, rfl⟩⟩

/-- The list and what follows it are what the first parenthesis opens. -/
theorem text_opened : '(' :: P.opened = P.list.text ++ P.rest := by
  simpa [Forest.text] using lossless_run _ _ _ _ P.run_list

/-- The text is its lead, the start of the header, and what the first parenthesis opens. -/
theorem text_eq : s = d.lead.text ++ (P.start.text ++ '(' :: P.opened) := by
  rw [← lossless_run _ _ _ _ P.run_start, ← lossless_run _ _ _ _ d.run_lead]

/-- Before the list stand whole tokens. -/
theorem exists_scan : ∃ ls, Scan s ('(' :: P.opened) ls :=
  ((items_leadPattern _ _ _ d.run_lead).trans
    (items_headerStart _ _ _ P.run_start)).exists_scan

end Parting

/-- A pattern without lists of parameters has none at any depth. -/
theorem not_parameters {p : Pattern Rule} (hp : ∀ x ∈ p.named, x.1 ≠ .parameters)
    (h : p.run s = some (f, r)) {x : Spot Rule} (hx : x ∈ f.spots) : x.rule ≠ .parameters := by
  have heach : f.Each fun rule _ => rule ≠ .parameters :=
    each_run (fun y hy _ _ _ _ => hp y hy) s f r h
  exact heach.of_mem_spots hx

namespace Parting

variable {d : Division s} (P : Parting d)

/-- A definition has one list of parameters. -/
theorem eq_of_mem_spots {x : Spot Rule} (hx : x ∈ d.root.inner.spots) (hrule : x.rule = .parameters) :
    x = ⟨d.lead.text ++ P.start.text, .parameters, P.list⟩ := by
  obtain ⟨g, htail, hg⟩ := exists_run_tail d
  -- The spots of the tree are those of the lead, of the three parts of the header, and behind it.
  rw [Division.root, htail] at hx
  rcases Forest.mem_spots_append.mp hx with hx | ⟨y, hy, rfl⟩
  · exact absurd hrule (not_parameters (by decide) d.run_lead hx)
  rcases Forest.mem_spots_append.mp hy with hy | ⟨y', hy', rfl⟩
  swap
  · have hne := not_parameters (by decide) hg hy'
    exact absurd hrule hne
  rw [Remark.spots_node, P.eq] at hy
  rcases List.mem_cons.mp hy with rfl | hy
  · simp [Spot.behind] at hrule
  rcases Forest.mem_spots_append.mp hy with hy | ⟨z, hz, rfl⟩
  · have hne := not_parameters (by decide) P.run_start hy
    exact absurd hrule hne
  rcases Forest.mem_spots_append.mp hz with hz | ⟨z', hz', rfl⟩
  swap
  · have hne := not_parameters (by decide) P.run_stop hz'
    exact absurd hrule hne
  rw [Remark.spots_node] at hz
  rcases List.mem_cons.mp hz with rfl | hz
  · simp [Spot.behind]
  · obtain ⟨l, hl, heq⟩ := run_node.mp P.run_list
    obtain rfl : P.list = l := by simpa using heq
    have hne := not_parameters (by decide) hl hz
    exact absurd hrule hne

/-- A space in the list of parameters stands behind its parenthesis and before its end. -/
theorem exists_text {before : List Char} (h : InParameters d.root before) :
    ∃ u v, before = d.lead.text ++ (P.start.text ++ u) ∧ P.list.text = u ++ ' ' :: v := by
  obtain ⟨x, hx, hrule, u, v, rfl, htext⟩ := h
  obtain rfl := P.eq_of_mem_spots hx hrule
  exact ⟨u, v, List.append_assoc _ _ _, htext⟩

/-- The expressions of a definition are those in its list of parameters. -/
theorem interrupts_root (x : Remark) : x.Interrupts d.root.inner s ↔
    x.Interrupts (.node .parameters P.list .nil) ('(' :: P.opened) := by
  obtain ⟨g, htail, hg⟩ := exists_run_tail d
  have hlead : ¬ x.Interrupts d.lead s := Remark.not_interrupts (by decide) d.run_lead
  have hbehind : ¬ x.Interrupts g d.body := Remark.not_interrupts (by decide) hg
  have hstart : ¬ x.Interrupts P.start (d.header.text ++ d.body) :=
    Remark.not_interrupts (by decide) P.run_start
  have hstop : ¬ x.Interrupts P.stop P.rest := Remark.not_interrupts (by decide) P.run_stop
  have hheader : d.header.text ++ d.body = (Forest.node .defHeader d.header .nil).text ++ d.body := by
    simp [Forest.text]
  calc x.Interrupts d.root.inner s
    _ ↔ x.Interrupts d.tail (d.header.text ++ d.body) := by
      rw [Division.root, Remark.interrupts_append d.text_eq, or_iff_right hlead]
    _ ↔ x.Interrupts d.header (d.header.text ++ d.body) := by
      rw [htail, Remark.interrupts_append hheader, or_iff_left hbehind,
        Remark.interrupts_node (by decide)]
    _ ↔ x.Interrupts (.node .parameters P.list .nil ++ P.stop) ('(' :: P.opened) := by
      rw [← Remark.interrupts_append (lossless_run _ _ _ _ P.run_start) |>.trans (or_iff_right hstart),
        ← P.eq]
    _ ↔ x.Interrupts (.node .parameters P.list .nil) ('(' :: P.opened) := by
      rw [Remark.interrupts_append (lossless_run _ _ _ _ P.run_list), or_iff_left hstop]

end Parting

/-! ## The list as a token -/

/-- Two groups in front of the same text. -/
def Swap.ofGroups {o o' : List Char} (hs : bracketGroup.run ('(' :: o) = some (f, r))
    (ht : bracketGroup.run ('(' :: o') = some (g, r)) : Swap where
  first := '('
  old := o
  new := o'
  after := r
  first_mem := by decide
  first_ne := by decide
  literal := by
    have hnone := run_of_peek_false (peek_stringLiteral (c := '(') (by decide))
    exact .refused (hnone _) (hnone _)
  group := .matched f r g r hs ht ((outline_run rfl hs).trans (outline_run rfl ht).symm)
    ⟨rfl, List.suffix_refl _⟩
  inside := fun w ws hw => Behind.alikeAt_inside hw
    (.of_run (run_groupItem.mpr (.inr (.inl hs)))) (.of_run (run_groupItem.mpr (.inr (.inl ht))))
    ⟨rfl, List.suffix_refl _⟩

namespace Parting

variable {d : Division s} (P : Parting d) {x : Remark}

/-- Lists of parameters in place of each other: the lead and the start of the header are read as
before. -/
theorem exists_before {y : Swap} {o : List Char} (hfirst : y.first = '(') (hold : y.old = P.opened)
    (hnew : y.new = o) (hafter : y.after = P.rest) (hst : y.Ahead s t) : ∃ lead u start,
      leadPattern.run t = some (lead, u) ∧ headerStart.run u = some (start, '(' :: o) ∧
        outline lead = outline d.lead ∧ outline start = outline P.start ∧
        lead.text = d.lead.text := by
  have hspace : y.first ≠ ' ' := by simp [hfirst]
  have hle : y.after.length < ('(' :: P.opened).length := by
    rw [hafter]
    exact length_lt_of_consumes rfl P.run_list
  cases Swap.alike_leadPattern hspace s t (.inl hst) with
  | refused hs _ => simp [d.run_lead] at hs
  | matched f r g u hs ht houtline hrest =>
    obtain ⟨rfl, rfl⟩ := Prod.mk.inj (Option.some.inj (d.run_lead.symm.trans hs))
    -- The list is still to come behind the lead.
    have hahead : y.Ahead (d.header.text ++ d.body) u := by
      refine Swap.ahead_of_steady (hle.trans_le ?_) hrest
      rw [lossless_run _ _ _ _ P.run_start, List.length_append]
      omega
    -- What stands before the place is the same in both texts, so both leads are the same.
    have htext : g.text = d.lead.text := by
      obtain ⟨a, ha, ha'⟩ := Aligned.exists_text hst
      obtain ⟨b, hb, hb'⟩ := Aligned.exists_text hahead
      rw [d.text_eq, hb, ← List.append_assoc] at ha
      rw [lossless_run _ _ _ _ ht, hb', ← List.append_assoc, ← List.append_cancel_right ha] at ha'
      exact List.append_cancel_right (List.append_cancel_right ha')
    cases Swap.alike_headerStart hspace _ u (.inl hahead) with
    | refused hr _ => simp [P.run_start] at hr
    | matched f' r' g' u' hr hu houtline' hrest' =>
      obtain ⟨rfl, rfl⟩ := Prod.mk.inj (Option.some.inj (P.run_start.symm.trans hr))
      rw [← hfirst, ← hold] at hrest'
      obtain rfl := Swap.eq_new_of_steady (by simpa [hold] using Nat.le_of_lt_succ hle) hrest'
      rw [hfirst, hnew] at hu
      exact ⟨g, u, g', ht, hu, houtline.symm, houtline'.symm, htext⟩

/-- As groups, the lists of both texts end in front of the same text. -/
theorem exists_groups (hinside : x.swap.Ahead ('(' :: P.opened) n)
    (hrest : P.rest.length ≤ x.after.length) : ∃ o l l', n = '(' :: o ∧
      bracketGroup.run ('(' :: P.opened) = some (l, P.rest) ∧
      bracketGroup.run ('(' :: o) = some (l', P.rest) := by
  obtain ⟨o, rfl⟩ : ∃ o, n = '(' :: o := by
    rcases Swap.ahead_cases hinside with ⟨h, -⟩ | ⟨c, u, v, h, rfl, -⟩
    · exact absurd (List.cons.inj h).1 (by decide : '(' ≠ ' ')
    · exact ⟨v, by rw [(List.cons.inj h).1]⟩
  obtain ⟨⟨l, r⟩, hgroup, heq⟩ := Option.map_eq_some_iff.mp (restOf_parameters P.run_list)
  obtain rfl : r = P.rest := heq
  cases Swap.alike_bracketGroup _ _ (.inl hinside) with
  | refused hs _ => simp [hgroup] at hs
  | matched f r g u hs ht _ hru =>
    obtain ⟨rfl, rfl⟩ := Prod.mk.inj (Option.some.inj (hgroup.symm.trans hs))
    obtain rfl := Swap.eq_of_steady hrest hru
    exact ⟨o, l, g, rfl, hgroup, ht⟩

/-- What is read of the text with the comment: the same as of the other one, or nothing, where the
comment interrupts an expression. -/
theorem reading_cases (hbefore : Aligned ('(' :: P.opened) n s t)
    (hinside : x.swap.Ahead ('(' :: P.opened) n) (hrest : P.rest.length ≤ x.after.length) :
    (¬ x.Interrupts (.node .parameters P.list .nil) ('(' :: P.opened) ∧ reading t = reading s) ∨
      (x.Interrupts (.node .parameters P.list .nil) ('(' :: P.opened) ∧ reading t = none) := by
  obtain ⟨o, l, l', rfl, hgroup, hgroup'⟩ := P.exists_groups hinside hrest
  obtain ⟨lead, u, start, hlead, hstart, houtline, houtline', htext⟩ :=
    P.exists_before (y := .ofGroups hgroup hgroup') (o := o) rfl rfl rfl rfl hbefore
  rcases Remark.parameters_cases (.inl hinside) P.run_list with ⟨hclear, g, v, hlist, houtline'', hrv⟩ |
    ⟨hinterrupts, hnone⟩
  · obtain rfl := Swap.eq_of_steady hrest hrv
    -- Behind a list that is read the header ends as it did.
    have hrun : defHeader.run u =
        some (.node .defHeader (start ++ (g ++ P.stop)) .nil, d.body) := by
      rw [run_defHeader]
      exact run_node.mpr ⟨_, run_seq.mpr ⟨start, _, _, hstart,
        run_seq.mpr ⟨g, _, P.stop, hlist, P.run_stop, rfl⟩, rfl⟩, rfl⟩
    have hparts : outline (start ++ (g ++ P.stop)) = outline d.header := by
      simp only [P.eq, outline_append, houtline', houtline'']
    refine .inl ⟨hclear, ?_⟩
    have hread : reading t =
        some (outline lead, outline (.node .defHeader (start ++ (g ++ P.stop)) .nil),
          lead.text.count '\n') := by
      simp only [reading, hlead, Option.bind_some, hrun, Option.map_some]
    rw [hread, reading_of_division d, houtline, htext, outline, outline, hparts]
    rfl
  · -- Without a list there is no header.
    have hrun : defHeader.run u = none := by
      rw [run_defHeader, run, run, hstart]
      simp only [run, hnone, Option.map_none]
    refine .inr ⟨hinterrupts, ?_⟩
    simp only [reading, hlead, Option.bind_some, hrun, Option.map_none]

end Parting

/-! ## Definitions -/

/-- A definition with the comment is read as before, or nothing is read. -/
theorem reading_of_comment (x : Remark) {before : List Char} {ls ls' : List (List Char)}
    (hscan : Scan (before ++ x.oldText) x.oldText ls)
    (hscan' : Scan (before ++ x.newText) x.newText ls') (hs : s = before ++ x.oldText)
    (d : Division s) (hplace : InParameters d.root before) :
    (¬ Interrupted d.root.inner before x.after ∧ reading (before ++ x.newText) = reading s) ∨
      (Interrupted d.root.inner before x.after ∧ reading (before ++ x.newText) = none) := by
  obtain ⟨P⟩ := exists_parting d
  obtain ⟨u, v, hbefore, htext⟩ := P.exists_text hplace
  have hopened : '(' :: P.opened = u ++ x.oldText := by
    have heq := hs.symm.trans P.text_eq
    rw [hbefore, List.append_assoc, List.append_assoc] at heq
    exact (List.append_cancel_left (List.append_cancel_left heq)).symm
  have hafter : x.after = v ++ P.rest := by
    have heq := P.text_opened.symm.trans hopened
    rw [htext, List.append_assoc] at heq
    exact (List.cons.inj (List.append_cancel_left heq)).2.symm
  have hall : Aligned x.oldText x.newText s (before ++ x.newText) :=
    hs ▸ aligned_of_scans hscan hscan' (by decide)
  obtain ⟨ls, hlist⟩ := P.exists_scan
  obtain ⟨n, hahead, hinside⟩ := Aligned.split hlist hall (by rw [hopened]; simp)
  have hcases := P.reading_cases hahead hinside (by rw [hafter]; simp)
  rwa [← P.interrupts_root, Remark.interrupts_iff hs] at hcases

/-- **Comments between parentheses.** Where a scan of a definition comes to a space in its list of
parameters, a comment and a line feed behind the space give a definition exactly if they interrupt no
annotation and no default value, as long as the comment closes no string that it would be a part of.
The name, the word for a coroutine, and the names and kinds of the parameters are the same then. -/
theorem comment_invisible_iff (x : Remark) {before : List Char} {ls ls' : List (List Char)}
    (hscan : Scan (before ++ x.oldText) x.oldText ls)
    (hscan' : Scan (before ++ x.newText) x.newText ls') {f : FunctionDef}
    (hf : FunctionDef.parse (.ofList (before ++ x.oldText)) = .ok f) :
    ∃ n, root (.ofList (before ++ x.oldText)) = .ok n ∧ (InParameters n before →
      ((∃ g, FunctionDef.parse (.ofList (before ++ x.newText)) = .ok g) ↔
        ¬ Interrupted n.inner before x.after) ∧
      ∀ g, FunctionDef.parse (.ofList (before ++ x.newText)) = .ok g → SameDefinition f g) := by
  obtain ⟨n, hn⟩ := (FunctionDef.exists_parse_iff_root _).mp ⟨f, hf⟩
  refine ⟨n, hn, fun hplace => ?_⟩
  obtain ⟨d, rfl⟩ := root_eq_ok_iff.mp hn
  rcases reading_of_comment x hscan hscan' String.toList_ofList d hplace with
    ⟨hclear, hread⟩ | ⟨hinterrupted, hread⟩
  · have hsame : reading (String.ofList (before ++ x.oldText)).toList =
        reading (String.ofList (before ++ x.newText)).toList :=
      hread.symm.trans (congrArg reading String.toList_ofList.symm)
    obtain ⟨g, hg, hfg, -⟩ := FunctionDef.parse_of_reading hsame hf
    refine ⟨iff_of_true ⟨g, hg⟩ hclear, fun g' hg' => ?_⟩
    obtain rfl := Except.ok.inj (hg.symm.trans hg')
    exact hfg
  · have hnone : ¬ ∃ g, FunctionDef.parse (.ofList (before ++ x.newText)) = .ok g := by
      rw [FunctionDef.exists_parse_iff_root, exists_root_iff, String.toList_ofList, hread]
      simp
    exact ⟨iff_of_false hnone (not_not_intro hinterrupted), fun g hg => absurd ⟨g, hg⟩ hnone⟩

/-- A comment with a quote and brackets, in the place behind an annotation and before the comma. -/
def remarkBeforeComma : Remark where
  comment := "), \"y".toList
  after := ", *, b=[3]): pass".toList
  line := by decide

/-- The comment does not change a definition with a string literal in front of it. -/
theorem comment_invisible_of_comma : ∃ f g n,
    FunctionDef.parse "def f(a: 'x' , *, b=[3]): pass" = .ok f ∧
    FunctionDef.parse "def f(a: 'x' #), \"y\n, *, b=[3]): pass" = .ok g ∧
    root "def f(a: 'x' , *, b=[3]): pass" = .ok n ∧ InParameters n "def f(a: 'x'".toList ∧
    ¬ Interrupted n.inner "def f(a: 'x'".toList ", *, b=[3]): pass".toList ∧ SameDefinition f g := by
  have hliteral (s : List Char) (h : restOf stringLiteral.run ("'x'".toList ++ s) = some s) :
      ∃ ls, Scan ("def f(a: 'x'".toList ++ s) s ls := by
    obtain ⟨ls, hls⟩ := exists_scan_of_literal h
    have hplain : Scan ("def f(a: ".toList ++ ("'x'".toList ++ s)) ("'x'".toList ++ s) [] :=
      .of_forall (by decide) _
    exact ⟨_, hplain.trans hls⟩
  obtain ⟨ls, hscan⟩ := hliteral remarkBeforeComma.oldText (by decide +kernel)
  obtain ⟨ls', hscan'⟩ := hliteral remarkBeforeComma.newText (by decide +kernel)
  have hf := eq_ok_of_isSome (x := FunctionDef.parse "def f(a: 'x' , *, b=[3]): pass")
    (by decide +kernel)
  have hg := eq_ok_of_isSome (x := FunctionDef.parse "def f(a: 'x' #), \"y\n, *, b=[3]): pass")
    (by decide +kernel)
  have hroot := eq_ok_of_isSome (x := root "def f(a: 'x' , *, b=[3]): pass") (by decide +kernel)
  have hplace : InParameters ((root "def f(a: 'x' , *, b=[3]): pass").toOption.getD default)
      "def f(a: 'x'".toList := by decide +kernel
  obtain ⟨n, hn, h⟩ := comment_invisible_iff remarkBeforeComma hscan hscan' hf
  obtain rfl := Except.ok.inj (hroot.symm.trans hn)
  obtain ⟨hiff, hsame⟩ := h hplace
  exact ⟨_, _, _, hf, hg, hroot, hplace, hiff.mp ⟨_, hg⟩, hsame _ hg⟩

/-- A comment in the place behind the first part of an annotation. -/
def remarkBeforeBar : Remark where
  comment := ['x']
  after := "| str): pass".toList
  line := by decide

/-- There the comment is not invisible: the text is no definition any more. -/
theorem comment_visible_of_bar : ¬ ∀ (x : Remark) before ls f n,
    Scan (before ++ x.oldText) x.oldText ls →
    FunctionDef.parse (.ofList (before ++ x.oldText)) = .ok f →
    root (.ofList (before ++ x.oldText)) = .ok n → InParameters n before →
      ∃ g, FunctionDef.parse (.ofList (before ++ x.newText)) = .ok g ∧ SameDefinition f g := by
  intro h
  have hf := eq_ok_of_isSome (x := FunctionDef.parse "def f(a: int | str): pass") (by decide +kernel)
  have hroot := eq_ok_of_isSome (x := root "def f(a: int | str): pass") (by decide +kernel)
  obtain ⟨g, hg, -⟩ := h remarkBeforeBar "def f(a: int".toList _ _ _
    (.of_forall (by decide) _) hf hroot (by decide +kernel)
  have hnone : (FunctionDef.parse "def f(a: int #x\n| str): pass").toOption.isSome = false := by
    decide +kernel
  have hg : FunctionDef.parse "def f(a: int #x\n| str): pass" = .ok g := hg
  simp [hg, Except.toOption] at hnone

/-- A comment with three quotes, in the place behind the last parameter. -/
def remarkWithQuotes : Remark where
  comment := " '''".toList
  after := "): pass".toList
  line := by decide

/-- That the comment closes no string cannot be left out either. Three quotes that nothing closes are
an empty string and the start of another one. Behind them a comment with three quotes closes a string
that goes from the first quotes into the comment, and swallows the parameter `c` between them: the
text is a definition with the comment too, but not the same one. -/
theorem comment_swallows_parameter : ∃ ls f g n,
    Scan ("def f(a=''' b', c".toList ++ remarkWithQuotes.oldText) remarkWithQuotes.oldText ls ∧
    FunctionDef.parse "def f(a=''' b', c ): pass" = .ok f ∧
    root "def f(a=''' b', c ): pass" = .ok n ∧ InParameters n "def f(a=''' b', c".toList ∧
    FunctionDef.parse "def f(a=''' b', c # '''\n): pass" = .ok g ∧
    f.parameters.map (·.name) = ["a", "c"] ∧ g.parameters.map (·.name) = ["a"] ∧
    ¬ SameDefinition f g := by
  have hplain : Scan ("def f(a=".toList ++ "''' b', c ): pass".toList) "''' b', c ): pass".toList [] :=
    .of_forall (by decide) _
  obtain ⟨ls, hempty⟩ := exists_scan_of_literal (by decide +kernel :
    restOf stringLiteral.run "''' b', c ): pass".toList = some "' b', c ): pass".toList)
  obtain ⟨ls', hstring⟩ := exists_scan_of_literal (by decide +kernel :
    restOf stringLiteral.run "' b', c ): pass".toList = some ", c ): pass".toList)
  have hrest : Scan (", c".toList ++ " ): pass".toList) " ): pass".toList [] :=
    .of_forall (by decide) _
  obtain ⟨f, hf, hfnames⟩ : ∃ f, FunctionDef.parse (.ofList "def f(a=''' b', c ): pass".toList) =
      .ok f ∧ f.parameters.map (·.name) = ["a", "c"] := by
    rw [FunctionDef.parse_ofList]
    exact exists_eq_ok (by decide +kernel)
  obtain ⟨g, hg, hgnames⟩ : ∃ g,
      FunctionDef.parse (.ofList "def f(a=''' b', c # '''\n): pass".toList) = .ok g ∧
        g.parameters.map (·.name) = ["a"] := by
    rw [FunctionDef.parse_ofList]
    exact exists_eq_ok (by decide +kernel)
  obtain ⟨n, hn, hplace⟩ : ∃ n, root (.ofList "def f(a=''' b', c ): pass".toList) = .ok n ∧
      InParameters n "def f(a=''' b', c".toList := by
    rw [root_ofList]
    exact exists_eq_ok (by decide +kernel)
  refine ⟨_, f, g, n, hplain.trans (hempty.trans (hstring.trans hrest)), hf, hn, hplace, hg, hfnames,
    hgnames, fun hsame => ?_⟩
  have heq := hgnames.symm.trans (hsame.names.trans hfnames)
  simp at heq

end UdfBridge.Source
