import UdfBridge.Proofs.Source.LineEnding
import UdfBridge.Proofs.Source.Outline

/-!
# Definitions are made of items

Every rule before the body reads whole items: literals, groups in brackets, comments, and other
characters that are no brackets. So there is a scan of every definition up to its body
(`Division.exists_scan`), and a list of parameters is a group in brackets (`restOf_parameters`).
-/

namespace UdfBridge.Source

open Grammar
open Grammar.Pattern

variable {p q : Pattern Rule} {s t r : List Char} {f : Forest Rule} {c w : Char} {ws : List Char}

/-! ## Groups -/

/-- Groups inside of other groups are read as they are by themselves. -/
theorem closeGroups_append (leaf : Step Rule) (us ws : List Char) (s : List Char) :
    closeGroups leaf (us ++ ws) s = (closeGroups leaf us s).bind fun (f, r) =>
      (closeGroups leaf ws r).map fun (g, t) => (f ++ g, t) := by
  -- A piece that is read first comes in front, whether the rest is read in one part or in two.
  have hmap : ∀ (f : Forest Rule) (m : Option (Forest Rule × List Char)),
      (m.bind fun (g, r) => (closeGroups leaf ws r).map fun (h, t) => (g ++ h, t)).map
          (fun (g, t) => (f ++ g, t)) =
        (m.map fun (g, t) => (f ++ g, t)).bind fun (g, r) =>
          (closeGroups leaf ws r).map fun (h, t) => (g ++ h, t) := by
    intro f m
    cases m with
    | none => rfl
    | some m =>
      simp only [Option.bind_some, Option.map_some, Option.map_map]
      exact congrArg (Option.map · _) (funext fun _ => by simp [Forest.append_assoc])
  fun_induction closeGroups leaf us s with
  | case1 s => simp
  | case2 w us => rw [List.cons_append, closeGroups]; rfl
  | case3 us w s ih =>
    rw [List.cons_append, closeGroups_close, ih]
    exact hmap (.char w .nil) _
  | case4 w us c s hne v hopen ih =>
    rw [List.cons_append, closeGroups_open hne hopen, ← List.cons_append, ← List.cons_append, ih]
    exact hmap (.char c .nil) _
  | case5 w us c s hne hopen hnone =>
    rw [List.cons_append, closeGroups_of_none hne hopen hnone]
    rfl
  | case6 w us c s hne hopen f r hpiece hlt ih =>
    rw [List.cons_append, closeGroups_leaf _ hne hopen hpiece hlt, ← List.cons_append, ih]
    exact hmap f _
  | case7 w us c s hne hopen f r hpiece hlt =>
    rw [List.cons_append, closeGroups, if_neg hne]
    simp only [hopen, hpiece, hlt, dite_false]
    rfl

/-- A bracket that opens a group inside of open ones: the group is read, and then what follows. -/
theorem closeGroups_group {leaf : Pattern Rule} {v : Char} (hw : c ≠ w)
    (hc : closer? c = some v) : closeGroups leaf.run (w :: ws) (c :: s) =
      ((balanced leaf).run (c :: s)).bind fun (f, r) =>
        (closeGroups leaf.run (w :: ws) r).map fun (g, t) => (f ++ g, t) := by
  have happend := closeGroups_append leaf.run [v] (w :: ws) s
  rw [List.singleton_append] at happend
  have hgroup : (balanced leaf).run (c :: s) =
      (closeGroups leaf.run [v] s).map fun (f, r) => (.char c f, r) := by
    rw [run, group, hc]
  rw [closeGroups_open hw hc, happend, hgroup]
  cases closeGroups leaf.run [v] s with
  | none => rfl
  | some m => simp [Option.map_map, Function.comp_def]

/-- Matches of the pattern, one behind the other, lead from a text to a rest of it. -/
inductive Chain (p : Pattern Rule) : List Char → List Char → Prop where
  | nil (s : List Char) : Chain p s s
  | cons {s t r : List Char} {f : Forest Rule} (first : p.run s = some (f, t))
    (rest : Chain p t r) : Chain p s r

namespace Chain

/-- One match leads to its rest. -/
theorem of_run (h : p.run s = some (f, r)) : Chain p s r :=
  .cons h (.nil r)

/-- Matches may follow those that lead to where they start. -/
theorem trans (h : Chain p s t) (h' : Chain p t r) : Chain p s r := by
  induction h with
  | nil => exact h'
  | cons hrun _ ih => exact .cons hrun (ih h')

/-- The rest is a part of the text. -/
theorem exists_text (h : Chain p s r) : ∃ a, s = a ++ r := by
  induction h with
  | nil s => exact ⟨[], rfl⟩
  | @cons s t r f hrun _ ih =>
    obtain ⟨a, rfl⟩ := ih
    exact ⟨f.text ++ a, by rw [lossless_run _ _ _ _ hrun, List.append_assoc]⟩

end Chain

/-! ## Items -/

/-- A character that is no bracket and starts no token is an item and a piece of a group. -/
theorem run_plainItem (hc : c ∉ '#' :: brackets ++ quotes) (s : List Char) :
    groupItem.run (c :: s) = some (.char c .nil, s) ∧
      groupLeaf.run (c :: s) = some (.char c .nil, s) ∧ closer? c = none := by
  have hplain : (noneOf ('#' :: brackets ++ quotes) : Pattern Rule).run (c :: s) =
      some (.char c .nil, s) := by
    rw [noneOf, run, if_pos (by simpa using hc)]
  simp only [List.cons_append, List.mem_cons, List.mem_append, not_or] at hc
  obtain ⟨hsign, hbracket, hquote⟩ := hc
  have hopen : closer? c = none := by
    rw [Option.eq_none_iff_forall_ne_some]
    intro v hv
    exact hbracket ((by decide : ∀ c ∈ ['(', '[', '\x7b'], c ∈ brackets) c (closer?_eq_some hv).1)
  have hliteral := run_of_peek_false (peek_stringLiteral hquote) s
  have hgroup : bracketGroup.run (c :: s) = none := by rw [bracketGroup, run, group, hopen]
  have hcomment : comment.run (c :: s) = none :=
    run_of_peek_false (by simp [comment, chr, peek, hsign]) s
  exact ⟨run_orElse.mpr (.inr ⟨hliteral, run_orElse.mpr (.inr ⟨hgroup,
    run_orElse.mpr (.inr ⟨hcomment, hplain⟩)⟩)⟩), run_orElse.mpr (.inr ⟨hliteral,
    run_orElse.mpr (.inr ⟨hcomment, hplain⟩)⟩), hopen⟩

/-- An item is a literal, a group, a comment, or a plain character. -/
theorem run_groupItem : groupItem.run s = some (f, r) ↔
    stringLiteral.run s = some (f, r) ∨ bracketGroup.run s = some (f, r) ∨
      comment.run s = some (f, r) ∨
        ∃ c, c ∉ '#' :: brackets ++ quotes ∧ s = c :: r ∧ f = .char c .nil := by
  constructor
  · intro h
    rcases run_orElse.mp h with h | ⟨-, h⟩
    · exact .inl h
    rcases run_orElse.mp h with h | ⟨-, h⟩
    · exact .inr (.inl h)
    rcases run_orElse.mp h with h | ⟨-, h⟩
    · exact .inr (.inr (.inl h))
    · obtain ⟨c, hc, rfl, rfl⟩ := run_one.mp h
      exact .inr (.inr (.inr ⟨c, by simpa using hc, rfl, rfl⟩))
  · rintro (h | h | h | ⟨c, hc, rfl, rfl⟩)
    · exact run_orElse.mpr (.inl h)
    · obtain ⟨c, hc, u, rfl⟩ := startsIn_of_balanced h
      have hquote : c ∉ quotes := (by decide : ∀ c ∈ ['(', '[', '\x7b'], c ∉ quotes) c hc
      exact run_orElse.mpr (.inr ⟨run_of_peek_false (peek_stringLiteral hquote) u,
        run_orElse.mpr (.inl h)⟩)
    · obtain ⟨u, rfl⟩ := exists_sign_of_comment h
      exact run_orElse.mpr (.inr ⟨run_of_peek_false (peek_stringLiteral (by decide)) u,
        run_orElse.mpr (.inr ⟨rfl, run_orElse.mpr (.inl h)⟩)⟩)
    · exact (run_plainItem hc r).1

/-- What open groups are closed by does not change if an item comes first. -/
theorem closeGroups_of_item (hw : w ∈ closers) (h : groupItem.run s = some (f, r)) :
    closeGroups groupLeaf.run (w :: ws) s =
      (closeGroups groupLeaf.run (w :: ws) r).map fun (g, t) => (f ++ g, t) := by
  have hcloser : ∀ v ∈ closers, v ∈ brackets ∧ v ∉ '#' :: quotes := by decide
  have hleaf {c : Char} {u : List Char} (hne : c ≠ w) (hopen : closer? c = none)
      (h : groupLeaf.run (c :: u) = some (f, r)) : closeGroups groupLeaf.run (w :: ws) (c :: u) =
        (closeGroups groupLeaf.run (w :: ws) r).map fun (g, t) => (f ++ g, t) :=
    closeGroups_leaf ws hne hopen h (length_lt_of_consumes (p := groupLeaf) rfl h)
  rcases run_groupItem.mp h with h | h | h | ⟨c, hc, rfl, rfl⟩
  · obtain ⟨q, hq, u, rfl⟩ := exists_quote_of_stringLiteral h
    -- What starts a piece is no closing bracket, so the innermost group stays open.
    have hne : q ≠ w := by
      rintro rfl
      exact (hcloser q hw).2 (List.mem_cons_of_mem _ hq)
    exact hleaf hne ((by decide : ∀ q ∈ quotes, closer? q = none) q hq) (run_orElse.mpr (.inl h))
  · obtain ⟨c, hc, u, rfl⟩ := startsIn_of_balanced h
    have hopen := (by decide : ∀ c ∈ ['(', '[', '\x7b'], (closer? c).isSome = true) c hc
    obtain ⟨v, hv⟩ := Option.isSome_iff_exists.mp hopen
    have hne : c ≠ w := by
      rintro rfl
      exact absurd hw ((by decide : ∀ c ∈ ['(', '[', '\x7b'], c ∉ closers) c hc)
    exact (closeGroups_group hne hv).trans (congrArg (Option.bind · _) h)
  · obtain ⟨u, rfl⟩ := exists_sign_of_comment h
    have hne : '#' ≠ w := by
      rintro rfl
      exact (hcloser '#' hw).2 List.mem_cons_self
    exact hleaf hne (by decide) (run_orElse.mpr (.inr
      ⟨run_of_peek_false (peek_stringLiteral (by decide)) u, run_orElse.mpr (.inl h)⟩))
  · obtain ⟨-, hrun, hopen⟩ := run_plainItem hc r
    have hne : c ≠ w := by
      rintro rfl
      exact hc (List.mem_append_left _ (List.mem_cons_of_mem _ (hcloser c hw).1))
    exact hleaf hne hopen hrun

/-- What open groups are closed by does not change if items come first, and these have no nodes. -/
theorem closeGroups_of_chain (hw : w ∈ closers) (h : Chain groupItem s r) :
    ∃ g, outline g = .nil ∧ ∀ ws, closeGroups groupLeaf.run (w :: ws) s =
      (closeGroups groupLeaf.run (w :: ws) r).map fun (f, t) => (g ++ f, t) := by
  induction h with
  | nil s => exact ⟨.nil, rfl, by simp⟩
  | @cons s t r f hitem _ ih =>
    obtain ⟨g, houtline, hclose⟩ := ih
    refine ⟨f ++ g, ?_, fun ws => ?_⟩
    · rw [outline_append, houtline, outline_run rfl hitem]
      rfl
    · rw [closeGroups_of_item hw hitem, hclose, Option.map_map]
      exact congrArg (Option.map · _) (funext fun _ => by simp [Forest.append_assoc])

/-- Items in front of the bracket that closes a group do not count. -/
theorem restOf_closeGroups (hw : w ∈ closers) (h : Chain groupItem s (w :: r)) :
    restOf (closeGroups groupLeaf.run [w]) s = some r := by
  obtain ⟨g, -, hclose⟩ := closeGroups_of_chain hw h
  rw [restOf, hclose [], closeGroups_close, closeGroups]
  rfl

/-! ## What the rules read -/

/-- The matches of the pattern are whole items. -/
def ReadsItems (p : Pattern Rule) : Prop :=
  ∀ s f r, p.run s = some (f, r) → Chain groupItem s r

namespace ReadsItems

/-- A sequence is of whole items if both of its parts are. -/
theorem seq (hp : ReadsItems p) (hq : ReadsItems q) : ReadsItems (seq p q) := by
  intro s f r h
  obtain ⟨_, t, _, h₁, h₂, -⟩ := run_seq.mp h
  exact (hp _ _ _ h₁).trans (hq _ _ _ h₂)

/-- A choice is of whole items if both of its patterns are. -/
theorem orElse (hp : ReadsItems p) (hq : ReadsItems q) : ReadsItems (orElse p q) := by
  intro s f r h
  rcases run_orElse.mp h with h | ⟨-, h⟩
  · exact hp _ _ _ h
  · exact hq _ _ _ h

/-- A pattern is of whole items as a node too. -/
theorem node {rule : Rule} (hp : ReadsItems p) : ReadsItems (node rule p) := by
  intro s f r h
  obtain ⟨_, hrun, -⟩ := run_node.mp h
  exact hp _ _ _ hrun

/-- What may be left out is of whole items if it is. -/
theorem optional (hp : ReadsItems p) : ReadsItems (optional p) := by
  intro s f r h
  rcases run_orElse.mp h with h | ⟨-, h⟩
  · exact hp _ _ _ h
  · obtain ⟨-, rfl⟩ := run_empty.mp h
    exact .nil _

/-- A repetition is of whole items if each of its matches is. -/
theorem star (hp : ReadsItems p) : ReadsItems (star p) := by
  intro s f r h
  exact run_star_induction (Q := fun s _ r => Chain groupItem s r) .nil
    (fun hrun _ => (hp _ _ _ hrun).trans) h

end ReadsItems

/-- A character that starts no comment, literal or group is an item. -/
theorem items_one {accepts : Char → Bool}
    (h : ∀ c ∈ '#' :: brackets ++ quotes, accepts c = false) : ReadsItems (one accepts) := by
  intro s f r hrun
  obtain ⟨c, hc, rfl, -⟩ := run_one.mp hrun
  refine .of_run (run_plainItem (fun hmem => ?_) r).1
  rw [h c hmem] at hc
  simp at hc

/-- The same for a given character. -/
theorem items_chr (hc : c ∉ '#' :: brackets ++ quotes) : ReadsItems (chr c) := by
  refine items_one fun d hd => ?_
  have hne : d ≠ c := fun e => hc (e ▸ hd)
  simpa using hne

/-- The characters of a word are items if none of them starts a comment, a literal or a group. -/
theorem items_word {cs : List Char} (h : ∀ c ∈ cs, c ∉ '#' :: brackets ++ quotes) :
    ReadsItems (word cs) := by
  induction cs with
  | nil =>
    intro s f r hrun
    obtain ⟨-, rfl⟩ := run_empty.mp hrun
    exact .nil _
  | cons c cs ih =>
    obtain ⟨hc, hcs⟩ := List.forall_mem_cons.mp h
    cases cs with
    | nil => exact items_chr hc
    | cons d cs => exact (items_chr hc).seq (ih hcs)

/-- A string literal is an item. -/
theorem items_stringLiteral : ReadsItems stringLiteral :=
  fun _ _ _ h => .of_run (run_groupItem.mpr (.inl h))

/-- A comment is an item. -/
theorem items_comment : ReadsItems comment :=
  fun _ _ _ h => .of_run (run_groupItem.mpr (.inr (.inr (.inl h))))

/-- A piece of an expression is a whole item. -/
theorem items_exprPiece (ends : List Char) : ReadsItems (exprPiece ends) := by
  have hgroup : ReadsItems bracketGroup :=
    fun _ _ _ h => .of_run (run_groupItem.mpr (.inr (.inl h)))
  refine items_stringLiteral.orElse (hgroup.orElse (items_one fun c hc => ?_))
  have hmem : c ∈ notPlain ends := subset_notPlain (List.Subset.refl _) hc
  show (!(notPlain ends).contains c) = false
  rw [List.contains_iff_mem.mpr hmem]
  rfl

/-- A name is of whole items, its characters. -/
theorem items_identifier : ReadsItems identifier :=
  ((items_one (by decide)).seq (items_one (by decide)).star).node

/-- A line break is of whole items. -/
theorem items_lineBreak : ReadsItems lineBreak :=
  (items_chr (by decide)).orElse ((items_word (by decide)).orElse (items_chr (by decide)))

/-- A continuation is of whole items. -/
theorem items_continuation : ReadsItems continuation :=
  (items_chr (by decide)).seq items_lineBreak

/-- A blank within a line is of whole items. -/
theorem items_inlineSpace : ReadsItems inlineSpace :=
  (items_one (by decide)).orElse items_continuation

/-- Blanks between items are of whole items, comments included. -/
theorem items_gaps : ReadsItems (star gap) :=
  (items_inlineSpace.orElse (items_lineBreak.orElse items_comment)).star

/-- A lead is of whole items. -/
theorem items_leadPattern : ReadsItems leadPattern := by
  have hend : ReadsItems (seq (optional comment) lineBreak) :=
    items_comment.optional.seq items_lineBreak
  have hblank : ReadsItems (star blankLine) := (items_inlineSpace.star.seq hend).star
  have hpiece := items_continuation.orElse (items_exprPiece lineEnds)
  have hdecorator : ReadsItems decorator :=
    (items_inlineSpace.star.seq ((items_chr (by decide)).seq (items_inlineSpace.star.seq
      ((hpiece.seq hpiece.star).node.seq hend)))).node
  exact hblank.seq (hdecorator.seq hblank).star

/-- A sign, blanks, and an expression. -/
theorem items_marked {rule : Rule} {ends : List Char} (hc : c ∉ '#' :: brackets ++ quotes) :
    ReadsItems (optional (seq (chr c) (seq (star gap) (node rule (plus (exprPiece ends)))))) :=
  ((items_chr hc).seq (items_gaps.seq
    ((items_exprPiece ends).seq (items_exprPiece ends).star).node)).optional

/-- Between its parentheses a list of parameters has items. -/
theorem items_parameterList : ReadsItems (optional (seq parameterList (star gap))) := by
  have hvariadic : ∀ {stars : Pattern Rule} {rule : Rule}, ReadsItems stars →
      ReadsItems (node rule <|
        seq stars <| seq (star gap) <| seq identifier <| seq (star gap) (optional hint)) :=
    fun hstars => (hstars.seq (items_gaps.seq (items_identifier.seq
      (items_gaps.seq (items_marked (by decide)))))).node
  have hparameter : ReadsItems parameter :=
    (items_identifier.seq (items_gaps.seq ((items_marked (by decide)).seq
      (items_gaps.seq (items_marked (by decide)))))).node
  have hitem : ReadsItems parameterItem :=
    (hvariadic (items_word (by decide))).orElse ((hvariadic (items_chr (by decide))).orElse
      ((items_chr (by decide)).node.orElse ((items_chr (by decide)).node.orElse hparameter)))
  have hcomma : ReadsItems (chr ',') := items_chr (by decide)
  have hlist : ReadsItems parameterList :=
    hitem.seq ((items_gaps.seq (hcomma.seq (items_gaps.seq hitem))).star.seq
      (items_gaps.seq hcomma).optional)
  exact (hlist.seq items_gaps).optional

/-- A list of parameters is a group. -/
theorem restOf_parameters (h : parameters.run s = some (f, r)) :
    restOf bracketGroup.run s = some r := by
  obtain ⟨_, hrun, -⟩ := run_node.mp h
  obtain ⟨_, t, _, hopen, hrest, -⟩ := run_seq.mp hrun
  obtain ⟨rfl, -⟩ := run_chr.mp hopen
  obtain ⟨_, u, _, hgaps, hrest, -⟩ := run_seq.mp hrest
  obtain ⟨_, v, _, hlist, hclose, -⟩ := run_seq.mp hrest
  obtain ⟨rfl, -⟩ := run_chr.mp hclose
  have hclosed := restOf_closeGroups (by decide : ')' ∈ closers)
    ((items_gaps _ _ _ hgaps).trans (items_parameterList _ _ _ hlist))
  obtain ⟨m, hm, heq⟩ := Option.map_eq_some_iff.mp hclosed
  rw [restOf, bracketGroup, run, group]
  simp only [closer?, if_true, hm, Option.map_some, heq]

/-- What stands in a header before the list of parameters. -/
def headerStart : Pattern Rule :=
  inOrder [star inlineSpace, optional (seq asyncKeyword (plus inlineSpace)), word ['d', 'e', 'f'],
    plus inlineSpace, functionName, star inlineSpace]

/-- What stands in a header behind the list of parameters. -/
def headerEnd : Pattern Rule :=
  inOrder [star inlineSpace, optional returnHint, star inlineSpace, chr ':']

/-- A header is what stands before its list of parameters, that list, and what stands behind it. -/
theorem run_defHeader (s : List Char) : defHeader.run s =
    (node .defHeader (seq headerStart (seq parameters headerEnd))).run s := by
  rw [run, headerStart, run_inOrder_seq]
  rfl

/-- What stands in a header before the list of parameters is of whole items. -/
theorem items_headerStart : ReadsItems headerStart := by
  have hspaces := items_inlineSpace.seq items_inlineSpace.star
  have hasync : ReadsItems (optional (seq asyncKeyword (plus inlineSpace))) :=
    ((items_word (by decide)).node.seq hspaces).optional
  exact items_inlineSpace.star.seq (hasync.seq ((items_word (by decide)).seq
    (hspaces.seq (items_identifier.node.seq items_inlineSpace.star))))

/-- What stands in a header behind the list is of whole items. -/
theorem items_headerEnd : ReadsItems headerEnd := by
  have hhint : ReadsItems (optional returnHint) :=
    ((items_word (by decide)).seq (items_inlineSpace.star.seq
      ((items_exprPiece _).seq (items_exprPiece _).star).node)).node.optional
  exact items_inlineSpace.star.seq (hhint.seq (items_inlineSpace.star.seq
    (items_chr (by decide))))

/-- A header is of whole items. -/
theorem items_defHeader : ReadsItems defHeader := by
  have hparameters : ReadsItems parameters := by
    intro s f r h
    obtain ⟨m, hm, rfl⟩ := Option.map_eq_some_iff.mp (restOf_parameters h)
    exact .of_run (run_groupItem.mpr (.inr (.inl hm)))
  intro s f r h
  rw [run_defHeader] at h
  exact (items_headerStart.seq (hparameters.seq items_headerEnd)).node s f r h

/-! ## Scans -/

/-- A literal is read as one token. -/
theorem exists_scan_of_literal (h : restOf stringLiteral.run s = some r) : ∃ ls, Scan s r ls := by
  obtain ⟨⟨f, t⟩, hrun, rfl⟩ := Option.map_eq_some_iff.mp h
  exact ⟨[f.text], .literal hrun (.nil t)⟩

/-- A comment is read as one token. -/
theorem exists_scan_of_comment (h : restOf comment.run s = some r) : ∃ ls, Scan s r ls := by
  obtain ⟨⟨f, t⟩, hrun, rfl⟩ := Option.map_eq_some_iff.mp h
  exact ⟨[], .comment hrun (.nil t)⟩

/-- What closes the open groups is read in whole tokens. -/
theorem exists_scan_of_closeGroups (hws : ∀ w ∈ ws, w ∈ closers)
    (h : closeGroups groupLeaf.run ws s = some (f, r)) : ∃ ls, Scan s r ls := by
  have hcloser : ∀ w ∈ closers, w ∉ '#' :: quotes := by decide
  fun_induction closeGroups groupLeaf.run ws s generalizing f with
  | case1 s =>
    obtain ⟨-, rfl⟩ := Prod.mk.inj (Option.some.inj h)
    exact ⟨[], .nil _⟩
  | case2 w ws => simp at h
  | case3 ws w s ih =>
    obtain ⟨hw, hws⟩ := List.forall_mem_cons.mp hws
    obtain ⟨m, hm, heq⟩ := Option.map_eq_some_iff.mp h
    obtain ⟨-, rfl⟩ := Prod.mk.inj heq
    obtain ⟨ls, hls⟩ := ih hws hm
    exact ⟨ls, .char (hcloser w hw) hls⟩
  | case4 w ws c s hne v hopen ih =>
    obtain ⟨m, hm, heq⟩ := Option.map_eq_some_iff.mp h
    obtain ⟨-, rfl⟩ := Prod.mk.inj heq
    obtain ⟨ls, hls⟩ := ih (List.forall_mem_cons.mpr ⟨(closer?_eq_some hopen).2, hws⟩) hm
    exact ⟨ls, .char (not_mem_of_closer? hopen).2 hls⟩
  | case5 w ws c s hne hopen hnone => simp at h
  | case6 w ws c s hne hopen g t hpiece hlt ih =>
    obtain ⟨m, hm, heq⟩ := Option.map_eq_some_iff.mp h
    obtain ⟨-, rfl⟩ := Prod.mk.inj heq
    obtain ⟨ls, hls⟩ := ih hws hm
    rcases run_orElse.mp hpiece with hpiece | ⟨-, hpiece⟩
    · exact ⟨_, .literal hpiece hls⟩
    rcases run_orElse.mp hpiece with hpiece | ⟨-, hpiece⟩
    · exact ⟨_, .comment hpiece hls⟩
    · -- A character that is a piece is neither a quote nor a number sign.
      obtain ⟨d, hc, heq, -⟩ := run_one.mp hpiece
      obtain ⟨rfl, rfl⟩ := List.cons.inj heq
      refine ⟨ls, .char (fun hmem => ?_) hls⟩
      have hsub : '#' :: quotes ⊆ '#' :: brackets ++ quotes := by decide
      rw [List.contains_iff_mem.mpr (hsub hmem)] at hc
      simp at hc
  | case7 w ws c s hne hopen g t hpiece hlt => simp at h

/-- Items are scanned. -/
theorem Chain.exists_scan (h : Chain groupItem s r) : ∃ ls, Scan s r ls := by
  induction h with
  | nil s => exact ⟨[], .nil s⟩
  | @cons s t r f hitem _ ih =>
    obtain ⟨ls, hls⟩ := ih
    rcases run_groupItem.mp hitem with h | h | h | ⟨c, hc, rfl, rfl⟩
    · exact ⟨_, .literal h hls⟩
    · obtain ⟨c, _, u, rfl⟩ := startsIn_of_balanced h
      cases hopen : closer? c with
      | none => simp [bracketGroup, run, group, hopen] at h
      | some w =>
        rw [bracketGroup, run, group, hopen] at h
        obtain ⟨m, hm, heq⟩ := Option.map_eq_some_iff.mp h
        obtain ⟨-, rfl⟩ := Prod.mk.inj heq
        obtain ⟨ls', hls'⟩ := exists_scan_of_closeGroups
          (List.forall_mem_singleton.mpr (closer?_eq_some hopen).2) hm
        exact ⟨_, .char (not_mem_of_closer? hopen).2 (hls'.trans hls)⟩
    · exact ⟨_, .comment h hls⟩
    · have hsub : '#' :: quotes ⊆ '#' :: brackets ++ quotes := by decide
      exact ⟨_, .char (fun hmem => hc (hsub hmem)) hls⟩

/-- **A definition is scanned up to its body**: before it there are only whole tokens. -/
theorem Division.exists_scan (d : Division s) : ∃ ls, Scan s d.body ls :=
  ((items_leadPattern _ _ _ d.run_lead).trans (items_defHeader _ _ _ d.run_header)).exists_scan

end UdfBridge.Source
