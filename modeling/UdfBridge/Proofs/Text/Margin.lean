import UdfBridge.Proofs.Text.Line
import UdfBridge.Text.Margin

/-!
# What dedenting does to lines

`dedent` works on one line at a time, and `lines_dedentBy` says that the lines of its result are the
dedented lines. The margin is the longest text that all indentations start with
(`marginOf_prefix_indentOf`, `prefix_marginOf`), so once it is taken away no margin is left: a
second `dedent` changes nothing (`dedent_dedent`). A line with content keeps its number, and its
indentation less the margin (`exists_line_of_dedentBy`).
-/

namespace UdfBridge.Text

/-! ## Lines -/

/-- What a line feed ends is a line. -/
theorem lines_append_feed {a : List Char} (h : '\n' ∉ a) (s : List Char) :
    lines (a ++ '\n' :: s) = (a ++ ['\n']) :: lines s := by
  induction a with
  | nil => rw [List.nil_append, lines, if_pos rfl, List.nil_append]
  | cons c a ih =>
    rw [List.mem_cons, not_or] at h
    rw [List.cons_append, lines, if_neg (fun e => h.1 e.symm), ih h.2]
    rfl

/-- A text without line feeds is one line. -/
theorem lines_of_not_mem {s : List Char} (hs : s ≠ []) (h : '\n' ∉ s) : lines s = [s] := by
  induction s with
  | nil => exact absurd rfl hs
  | cons c s ih =>
    rw [List.mem_cons, not_or] at h
    rw [lines, if_neg (fun e => h.1 e.symm)]
    by_cases hnil : s = []
    · subst hnil
      rfl
    · rw [ih hnil h.2]

/-- Induction on the lines of a text, from the last to the first. -/
theorem lines_induction {P : List Char → Prop} (nil : P [])
    (last : ∀ s, s ≠ [] → '\n' ∉ s → P s)
    (line : ∀ a s, '\n' ∉ a → P s → P (a ++ '\n' :: s)) (s : List Char) : P s := by
  by_cases hs : s = []
  · rwa [hs]
  · by_cases hmem : '\n' ∈ s
    · obtain ⟨a, t, heq, ha⟩ := List.eq_append_cons_of_mem hmem
      rw [heq]
      exact line a t ha (lines_induction nil last line t)
    · exact last s hs hmem
termination_by s.length
decreasing_by
  rw [heq, List.length_append, List.length_cons]
  omega

/-- The first line of a text goes on to the first line feed. -/
theorem exists_lines_cons {a : List Char} {c : Char} (ha : '\n' ∉ a) (hc : c ≠ '\n')
    (s : List Char) : ∃ b ls, lines (a ++ c :: s) = (a ++ c :: b) :: ls := by
  have hac : '\n' ∉ a ++ [c] := by simp [ha, hc.symm]
  by_cases hmem : '\n' ∈ s
  · obtain ⟨b, t, rfl, hb⟩ := List.eq_append_cons_of_mem hmem
    refine ⟨b ++ ['\n'], lines t, ?_⟩
    have hline : '\n' ∉ a ++ c :: b := by simp [ha, hb, hc.symm]
    have := lines_append_feed hline t
    simpa using this
  · exact ⟨s, [], lines_of_not_mem (by simp) (by simp [ha, hmem, hc.symm])⟩

/-- A text on one line starts the first line of every text that it starts. -/
theorem exists_lines_append {a : List Char} (hne : a ≠ []) (ha : '\n' ∉ a) (s : List Char) :
    ∃ b ls, lines (a ++ s) = (a ++ b) :: ls := by
  obtain ⟨t, c, rfl⟩ := (List.eq_nil_or_concat a).resolve_left hne
  rw [List.concat_eq_append, List.mem_append, not_or] at ha
  have hc : c ≠ '\n' := fun heq => ha.2 (heq ▸ List.mem_cons_self)
  obtain ⟨b, ls, hlines⟩ := exists_lines_cons ha.1 hc s
  exact ⟨b, ls, by simpa using hlines⟩

/-- Behind its first line a text has the other ones. -/
theorem fromLine_append_feed {a : List Char} (h : '\n' ∉ a) (s : List Char) (j : Nat) :
    fromLine (j + 2) (a ++ '\n' :: s) = fromLine (j + 1) s := by
  unfold fromLine
  rw [lines_append_feed h]
  rfl

/-! ## Indentations -/

/-- A line with content has a character that is none of an indentation. -/
theorem exists_content {l : List Char} (h : isBlankLine l = false) :
    ∃ c ∈ l, isIndent c = false ∧ isLineEnd c = false := by
  simpa [isBlankLine] using h

/-- Content ends the indentation. -/
theorem indentOf_append {l : List Char} (h : isBlankLine l = false) (t : List Char) :
    indentOf (l ++ t) = indentOf l := by
  unfold indentOf
  rw [List.takeWhile_append, if_neg]
  intro hall
  obtain ⟨c, hc, hindent, -⟩ := exists_content h
  have hself := (List.takeWhile_prefix isIndent).eq_of_length hall
  rw [List.takeWhile_eq_self_iff.mp hself c hc] at hindent
  simp at hindent

/-- A line without a part of its indentation is indented by the rest of it. -/
theorem indentOf_drop {l : List Char} {n : Nat} (h : n ≤ (indentOf l).length) :
    indentOf (l.drop n) = (indentOf l).drop n := by
  have hl : l = indentOf l ++ l.dropWhile isIndent := List.takeWhile_append_dropWhile.symm
  have hindent : ∀ c ∈ (indentOf l).drop n, isIndent c = true := fun c hc =>
    List.mem_takeWhile_imp (List.mem_of_mem_drop hc)
  have hrest : (l.dropWhile isIndent).takeWhile isIndent = [] := by
    rw [List.takeWhile_eq_nil_iff]
    exact fun hl => by simpa using List.dropWhile_get_zero_not isIndent l hl
  conv_lhs => rw [hl, List.drop_append_of_le_length h]
  unfold indentOf at hindent ⊢
  rw [List.takeWhile_append_of_pos hindent, hrest, List.append_nil]

/-- A line without a part of its indentation keeps its content. -/
theorem isBlankLine_drop {l : List Char} {n : Nat} (h : n ≤ (indentOf l).length) :
    isBlankLine (l.drop n) = isBlankLine l := by
  have hl : l = l.take n ++ l.drop n := (List.take_append_drop n l).symm
  have htake : isBlankLine (l.take n) = true := by
    have hpre : l.take n <+: indentOf l := by
      refine List.prefix_of_prefix_length_le (List.take_prefix n l)
        (List.takeWhile_prefix isIndent) ?_
      exact (List.length_take_le n l).trans h
    refine List.all_eq_true.mpr fun c hc => ?_
    rw [List.mem_takeWhile_imp (hpre.subset hc), Bool.true_or]
  unfold isBlankLine at htake ⊢
  conv_rhs => rw [hl, List.all_append, htake, Bool.true_and]

/-! ## The margin -/

/-- What both texts start with, their longest common start starts with. -/
theorem prefix_commonStart {p s t : List Char} (hs : p <+: s) (ht : p <+: t) :
    p <+: commonStart s t := by
  induction p generalizing s t with
  | nil => exact List.nil_prefix
  | cons a p ih =>
    obtain ⟨s, rfl⟩ := hs
    obtain ⟨t, rfl⟩ := ht
    rw [List.cons_append, List.cons_append, commonStart, if_pos rfl]
    exact List.cons_prefix_cons.mpr ⟨rfl, ih (List.prefix_append p s) (List.prefix_append p t)⟩

/-- What some texts start with in common, each of them starts with. -/
theorem foldl_commonStart_prefix_of_mem {first : List Char} {rest : List (List Char)}
    {s : List Char} (h : s ∈ first :: rest) : rest.foldl commonStart first <+: s := by
  induction rest generalizing first s with
  | nil =>
    rw [List.mem_singleton.mp h]
    exact List.prefix_refl _
  | cons t rest ih =>
    have hboth : rest.foldl commonStart (commonStart first t) <+: commonStart first t :=
      ih List.mem_cons_self
    rw [List.foldl_cons]
    rcases List.mem_cons.mp h with rfl | h
    · exact hboth.trans (commonStart_prefix_left _ _)
    · rcases List.mem_cons.mp h with rfl | h
      · exact hboth.trans (commonStart_prefix_right _ _)
      · exact ih (List.mem_cons_of_mem _ h)

/-- What each of some texts starts with is a part of what they start with in common. -/
theorem prefix_foldl_commonStart {p first : List Char} {rest : List (List Char)}
    (h : ∀ s ∈ first :: rest, p <+: s) : p <+: rest.foldl commonStart first := by
  induction rest generalizing first with
  | nil => exact h first List.mem_cons_self
  | cons t rest ih =>
    refine ih fun s hs => ?_
    rcases List.mem_cons.mp hs with rfl | hs
    · exact prefix_commonStart (h _ List.mem_cons_self)
        (h t (List.mem_cons_of_mem _ List.mem_cons_self))
    · exact h s (List.mem_cons_of_mem _ (List.mem_cons_of_mem _ hs))

variable {ls : List (List Char)} {l : List Char}

/-- Every line with content is indented by the margin at least. -/
theorem marginOf_prefix_indentOf (hl : l ∈ ls) (hcontent : isBlankLine l = false) :
    marginOf ls <+: indentOf l := by
  have hmem : indentOf l ∈ (ls.filter fun l => !isBlankLine l).map indentOf :=
    List.mem_map_of_mem (List.mem_filter.mpr ⟨hl, by simp [hcontent]⟩)
  unfold marginOf
  split
  · exact List.nil_prefix
  · rename_i first rest heq
    rw [heq] at hmem
    exact foldl_commonStart_prefix_of_mem hmem

/-- What all lines with content are indented by, the margin starts with. -/
theorem prefix_marginOf {p : List Char} (hl : l ∈ ls) (hcontent : isBlankLine l = false)
    (h : ∀ l ∈ ls, isBlankLine l = false → p <+: indentOf l) : p <+: marginOf ls := by
  have hmem : indentOf l ∈ (ls.filter fun l => !isBlankLine l).map indentOf :=
    List.mem_map_of_mem (List.mem_filter.mpr ⟨hl, by simp [hcontent]⟩)
  unfold marginOf
  split
  · rename_i heq
    rw [heq] at hmem
    simp at hmem
  · rename_i first rest heq
    refine prefix_foldl_commonStart fun s hs => ?_
    rw [← heq] at hs
    obtain ⟨l', hl', rfl⟩ := List.mem_map.mp hs
    obtain ⟨hmem', hcontent'⟩ := List.mem_filter.mp hl'
    exact h l' hmem' (by simpa using hcontent')

/-- Where no line has content there is no margin. -/
theorem marginOf_of_blank (h : ∀ l ∈ ls, isBlankLine l = true) : marginOf ls = [] := by
  have hnone : (ls.filter fun l => !isBlankLine l) = [] := by
    rw [List.filter_eq_nil_iff]
    intro l hl
    simp [h l hl]
  unfold marginOf
  rw [hnone]
  rfl

/-! ## Dedenting line by line -/

/-- `s` without `n` characters of every line with content, its blank lines reduced to their ends. -/
def dedentBy (n : Nat) (s : List Char) : List Char :=
  ((lines s).map (dedentLine n)).flatten

/-- Dedenting takes the length of the margin off every line. -/
theorem dedentChars_eq (s : List Char) :
    dedentChars s = dedentBy (marginOf (lines s)).length s := rfl

/-- Every line with content is indented by `n` characters at least. -/
def IndentedBy (n : Nat) (s : List Char) : Prop :=
  ∀ l ∈ lines s, isBlankLine l = false → n ≤ (indentOf l).length

/-- Every line with content is indented by the margin at least. -/
theorem indentedBy_margin (s : List Char) : IndentedBy (marginOf (lines s)).length s :=
  fun _ hl hcontent => (marginOf_prefix_indentOf hl hcontent).length_le

/-- A line with content loses its first characters. -/
theorem dedentLine_of_content {n : Nat} (h : isBlankLine l = false) :
    dedentLine n l = l.drop n := by
  rw [dedentLine, h]
  rfl

/-- The end of a blank line. -/
theorem dedentLine_of_blank {n : Nat} (h : isBlankLine l = true) :
    dedentLine n l = (l.reverse.takeWhile isLineEnd).reverse := by
  rw [dedentLine, if_pos h]

/-- A line is blank before and after. -/
theorem isBlankLine_dedentLine {n : Nat}
    (h : isBlankLine l = false → n ≤ (indentOf l).length) :
    isBlankLine (dedentLine n l) = isBlankLine l := by
  cases hblank : isBlankLine l with
  | true =>
    rw [dedentLine_of_blank hblank]
    refine List.all_eq_true.mpr fun c hc => ?_
    rw [List.mem_takeWhile_imp (List.mem_reverse.mp hc), Bool.or_true]
  | false => rw [dedentLine_of_content hblank, isBlankLine_drop (h hblank), hblank]

/-- A dedented line is not dedented any further. -/
theorem dedentLine_dedentLine {n : Nat} (h : isBlankLine l = false → n ≤ (indentOf l).length) :
    dedentLine 0 (dedentLine n l) = dedentLine n l := by
  have hsame := isBlankLine_dedentLine h
  cases hblank : isBlankLine l with
  | true =>
    rw [hblank] at hsame
    have hends : ∀ c ∈ l.reverse.takeWhile isLineEnd, isLineEnd c = true := fun c hc =>
      List.mem_takeWhile_imp hc
    rw [dedentLine_of_blank hsame, dedentLine_of_blank hblank, List.reverse_reverse,
      List.takeWhile_eq_self_iff.mpr hends]
  | false =>
    rw [hblank] at hsame
    rw [dedentLine_of_content hsame, List.drop_zero]

/-- A line keeps the line feed at its end. -/
theorem exists_dedentLine_feed {n : Nat} {a : List Char} (ha : '\n' ∉ a)
    (h : isBlankLine (a ++ ['\n']) = false → n ≤ (indentOf (a ++ ['\n'])).length) :
    ∃ b, '\n' ∉ b ∧ dedentLine n (a ++ ['\n']) = b ++ ['\n'] := by
  cases hblank : isBlankLine (a ++ ['\n']) with
  | true =>
    refine ⟨(a.reverse.takeWhile isLineEnd).reverse, ?_, ?_⟩
    · intro hmem
      exact ha (List.mem_reverse.mp ((List.takeWhile_prefix _).subset (List.mem_reverse.mp hmem)))
    · rw [dedentLine_of_blank hblank, List.reverse_append]
      simp [isLineEnd]
  | false =>
    have hlength : (indentOf (a ++ ['\n'])).length ≤ a.length := by
      have hindent : indentOf (a ++ ['\n']) = indentOf a := by
        unfold indentOf
        rw [List.takeWhile_append]
        split
        · have hfeed : List.takeWhile isIndent ['\n'] = [] := rfl
          rw [hfeed, List.append_nil]
          exact ((List.takeWhile_prefix isIndent).eq_of_length ‹_›).symm
        · rfl
      rw [hindent]
      exact (List.takeWhile_prefix isIndent).length_le
    refine ⟨a.drop n, fun hmem => ha (List.mem_of_mem_drop hmem), ?_⟩
    rw [dedentLine_of_content hblank, List.drop_append_of_le_length ((h hblank).trans hlength)]

/-- If every line with content is indented by `n` characters, so are the first line and those behind
it. -/
theorem IndentedBy.of_feed {n : Nat} {a s : List Char} (ha : '\n' ∉ a)
    (h : IndentedBy n (a ++ '\n' :: s)) :
    (isBlankLine (a ++ ['\n']) = false → n ≤ (indentOf (a ++ ['\n'])).length) ∧ IndentedBy n s := by
  unfold IndentedBy at h
  rw [lines_append_feed ha, List.forall_mem_cons] at h
  exact h

/-- A text is dedented line by line. -/
theorem dedentBy_append_feed {n : Nat} {a : List Char} (ha : '\n' ∉ a) (s : List Char) :
    dedentBy n (a ++ '\n' :: s) = dedentLine n (a ++ ['\n']) ++ dedentBy n s := by
  rw [dedentBy, lines_append_feed ha, List.map_cons, List.flatten_cons]
  rfl

/-- A text of one line without a line feed is dedented as this line. -/
theorem dedentBy_of_not_mem {n : Nat} {s : List Char} (hs : s ≠ []) (h : '\n' ∉ s) :
    dedentBy n s = dedentLine n s := by
  rw [dedentBy, lines_of_not_mem hs h, List.map_singleton, List.flatten_singleton]

/-- No line feed comes into a line. -/
theorem not_mem_dedentLine {n : Nat} (h : '\n' ∉ l) : '\n' ∉ dedentLine n l := by
  unfold dedentLine
  split
  · intro hmem
    exact h (List.mem_reverse.mp ((List.takeWhile_prefix _).subset (List.mem_reverse.mp hmem)))
  · exact fun hmem => h (List.mem_of_mem_drop hmem)

/-- The lines of a dedented text are its dedented lines; a last line of which nothing is left is
none. -/
theorem lines_dedentBy {n : Nat} {s : List Char} (h : IndentedBy n s) :
    lines (dedentBy n s) = ((lines s).map (dedentLine n)).filter (· ≠ []) := by
  induction s using lines_induction with
  | nil => rfl
  | last s hs hmem =>
    rw [dedentBy_of_not_mem hs hmem, lines_of_not_mem hs hmem, List.map_singleton]
    by_cases hnil : dedentLine n s = []
    · rw [hnil]
      rfl
    · rw [lines_of_not_mem hnil (not_mem_dedentLine hmem)]
      simp [hnil]
  | line a s ha ih =>
    obtain ⟨hfirst, hrest⟩ := h.of_feed ha
    obtain ⟨b, hb, hline⟩ := exists_dedentLine_feed ha hfirst
    rw [dedentBy_append_feed ha, hline, List.append_assoc, List.singleton_append,
      lines_append_feed hb, ih hrest, lines_append_feed ha, List.map_cons, hline,
      List.filter_cons_of_pos (by simp)]

/-- Where no line has content, none has it after dedenting; else the margin is gone. -/
theorem marginOf_dedentChars (s : List Char) : marginOf (lines (dedentChars s)) = [] := by
  have hby := indentedBy_margin s
  rw [dedentChars_eq, lines_dedentBy hby]
  generalize hm : marginOf (lines s) = m at hby
  generalize hnew : ((lines s).map (dedentLine m.length)).filter (· ≠ []) = new
  by_cases hcontent : ∃ l ∈ lines s, isBlankLine l = false
  · obtain ⟨l, hl, hlcontent⟩ := hcontent
    -- With the margin of the result behind it, the margin would still be one.
    have hlonger : m ++ marginOf new <+: m := by
      conv_rhs => rw [← hm]
      refine prefix_marginOf hl hlcontent fun l hl hlcontent => ?_
      have hle := hby l hl hlcontent
      have hmem : l.drop m.length ∈ new := by
        rw [← hnew, List.mem_filter]
        refine ⟨List.mem_map.mpr ⟨l, hl, dedentLine_of_content hlcontent⟩, ?_⟩
        obtain ⟨c, hc, -⟩ := exists_content ((isBlankLine_drop hle).trans hlcontent)
        simpa using List.ne_nil_of_mem hc
      have hpre := marginOf_prefix_indentOf hmem ((isBlankLine_drop hle).trans hlcontent)
      rw [indentOf_drop hle] at hpre
      obtain ⟨rest, hrest⟩ : m <+: indentOf l := hm ▸ marginOf_prefix_indentOf hl hlcontent
      rw [← hrest] at hpre ⊢
      rw [List.drop_left] at hpre
      exact (List.prefix_append_right_inj m).mpr hpre
    have hlength := hlonger.length_le
    rw [List.length_append] at hlength
    exact List.length_eq_zero_iff.mp (by omega)
  · refine marginOf_of_blank fun l hl => ?_
    rw [← hnew, List.mem_filter] at hl
    obtain ⟨l', hl', rfl⟩ := List.mem_map.mp hl.1
    rw [isBlankLine_dedentLine (hby l' hl')]
    by_contra hne
    exact hcontent ⟨l', hl', by simpa using hne⟩

/-- A dedented text has nothing to be taken away any more. -/
theorem dedentChars_dedentChars (s : List Char) : dedentChars (dedentChars s) = dedentChars s := by
  have hby := indentedBy_margin s
  rw [dedentChars_eq (dedentChars s), marginOf_dedentChars, dedentBy, dedentChars_eq,
    lines_dedentBy hby]
  have hsame : (((lines s).map (dedentLine (marginOf (lines s)).length)).filter (· ≠ [])).map
      (dedentLine 0) = ((lines s).map (dedentLine (marginOf (lines s)).length)).filter (· ≠ []) := by
    conv_rhs => rw [← List.map_id (List.filter _ _)]
    refine List.map_congr_left fun l hl => ?_
    obtain ⟨l', hl', rfl⟩ := List.mem_map.mp (List.mem_filter.mp hl).1
    exact dedentLine_dedentLine (hby l' hl')
  rw [List.length_nil, hsame]
  -- The lines of which nothing is left do not count in the text.
  exact List.flatten_filter_ne_nil

/-- Where the first line starts with content in the first column, there is no margin, and what the
text has on that line stays. -/
theorem exists_dedentChars_append {c : Char} (hindent : isIndent c = false)
    (hend : isLineEnd c = false) {a : List Char} (ha : '\n' ∉ c :: a) (s : List Char) :
    ∃ t, dedentChars (c :: a ++ s) = c :: a ++ t := by
  obtain ⟨b, ls, hlines⟩ := exists_lines_append (List.cons_ne_nil c a) ha s
  have hcontent : isBlankLine (c :: a ++ b) = false := by
    simp [isBlankLine, hindent, hend]
  have hmargin : marginOf (lines (c :: a ++ s)) = [] := by
    have hprefix : marginOf (lines (c :: a ++ s)) <+: indentOf (c :: a ++ b) :=
      marginOf_prefix_indentOf (by rw [hlines]; exact List.mem_cons_self) hcontent
    have hnil : indentOf (c :: a ++ b) = [] := by
      rw [indentOf, List.cons_append, List.takeWhile_cons_of_neg (by simp [hindent])]
    rwa [hnil, List.prefix_nil] at hprefix
  refine ⟨b ++ (ls.map (dedentLine 0)).flatten, ?_⟩
  rw [dedentChars_eq, hmargin, dedentBy, hlines, List.map_cons, List.flatten_cons,
    List.length_nil, dedentLine_of_content hcontent, List.drop_zero, List.append_assoc]

/-- A second `dedent` changes nothing. -/
theorem dedent_dedent (s : String) : dedent (dedent s) = dedent s := by
  unfold dedent
  rw [String.toList_ofList, dedentChars_dedentChars]

/-! ## One line -/

/-- A line with content that a dedented text has at some place is the line of the text at that
place, without the margin. The induction is on the lines up to that place. -/
theorem exists_line_of_dedentBy {n j : Nat} {s l' : List Char} {ls' : List (List Char)}
    (h : IndentedBy n s) (hlines : lines (fromLine (j + 1) (dedentBy n s)) = l' :: ls')
    (hcontent : isBlankLine l' = false) :
    ∃ l ls, (lines s).drop j = l :: ls ∧ isBlankLine l = false ∧ l' = l.drop n := by
  have hfirst : ∀ l, (isBlankLine l = false → n ≤ (indentOf l).length) → l' = dedentLine n l →
      isBlankLine l = false ∧ l' = l.drop n := by
    intro l hl heq
    have hlcontent : isBlankLine l = false := by rw [← isBlankLine_dedentLine hl, ← heq, hcontent]
    exact ⟨hlcontent, heq.trans (dedentLine_of_content hlcontent)⟩
  induction s using lines_induction generalizing j with
  | nil =>
    have hnone : lines (fromLine (j + 1) (dedentBy n [])) = [] := by
      simp [fromLine, dedentBy, lines]
    rw [hnone] at hlines
    simp at hlines
  | last s hs hmem =>
    have hone := h s (by rw [lines_of_not_mem hs hmem]; exact List.mem_singleton_self s)
    rw [dedentBy_of_not_mem hs hmem] at hlines
    have hnot := not_mem_dedentLine (n := n) hmem
    by_cases hnil : dedentLine n s = []
    · rw [hnil] at hlines
      simp [fromLine, lines] at hlines
    · cases j with
      | zero =>
        rw [fromLine_one, lines_of_not_mem hnil hnot] at hlines
        obtain ⟨hlcontent, heq⟩ := hfirst s hone (List.cons.inj hlines).1.symm
        exact ⟨s, [], lines_of_not_mem hs hmem, hlcontent, heq⟩
      | succ j =>
        rw [fromLine, lines_of_not_mem hnil hnot] at hlines
        simp [lines] at hlines
  | line a s ha ih =>
    obtain ⟨hone, hrest⟩ := h.of_feed ha
    obtain ⟨b, hb, hline⟩ := exists_dedentLine_feed ha hone
    rw [dedentBy_append_feed ha, hline, List.append_assoc, List.singleton_append] at hlines
    rw [lines_append_feed ha]
    cases j with
    | zero =>
      rw [fromLine_one, lines_append_feed hb] at hlines
      obtain ⟨hlcontent, heq⟩ := hfirst _ hone ((List.cons.inj hlines).1.symm.trans hline.symm)
      exact ⟨_, _, rfl, hlcontent, heq⟩
    | succ j =>
      rw [fromLine_append_feed hb] at hlines
      exact ih hrest hlines

/-- **A line with content of a dedented text** starts in the first column exactly if the line of the
text that it was made of is indented by no more than what all lines with content are indented
by. -/
theorem indentOf_dedent_eq_nil_iff {j : Nat} {s l' : List Char} {ls' : List (List Char)}
    (hlines : lines (fromLine (j + 1) (dedentChars s)) = l' :: ls')
    (hcontent : isBlankLine l' = false) :
    indentOf l' = [] ↔ ∀ l ∈ lines s, isBlankLine l = false →
      indentOf (fromLine (j + 1) s) <+: indentOf l := by
  have hby := indentedBy_margin s
  obtain ⟨l, ls, hdrop, hlcontent, rfl⟩ := exists_line_of_dedentBy hby hlines hcontent
  have hmem : l ∈ lines s := List.mem_of_mem_drop (hdrop ▸ List.mem_cons_self)
  have hindent : indentOf (fromLine (j + 1) s) = indentOf l := by
    rw [fromLine, Nat.add_sub_cancel, hdrop, List.flatten_cons]
    exact indentOf_append hlcontent _
  have hpre : marginOf (lines s) <+: indentOf l := marginOf_prefix_indentOf hmem hlcontent
  rw [indentOf_drop (hby l hmem hlcontent), hindent, List.drop_eq_nil_iff]
  constructor
  · intro hle k hk hkcontent
    rw [← hpre.eq_of_length_le hle]
    exact marginOf_prefix_indentOf hk hkcontent
  · intro hall
    exact (prefix_marginOf hmem hlcontent hall).length_le

end UdfBridge.Text
