import UdfBridge.Proofs.Text.Margin

/-!
# Indenting a text

`indentText p` puts `p` in front of every line with content. If `p` is made of spaces and tabs, the
margin of the text gets `p` in front too (`marginOf_indentLines`), so `dedent` takes it away with
the margin (`dedent_indentText`).

The margin is the longest start in spaces and tabs that the lines with content share
(`prefix_marginOf_lines`). It makes no difference whether characters or their bytes are compared,
for spaces and tabs are one byte each (`bytes_prefix_marginOf`).
-/

namespace UdfBridge.Text

variable {p l s t : List Char} {ls : List (List Char)}

/-! ## Indentations -/

/-- An indentation is of blanks and tabs. -/
theorem isIndent_of_mem_indentOf {c : Char} (h : c ∈ indentOf l) : isIndent c = true :=
  List.mem_takeWhile_imp h

/-- A margin is made of spaces and tabs. -/
theorem isIndent_of_mem_marginOf {c : Char} (h : c ∈ marginOf ls) : isIndent c = true := by
  by_cases hcontent : ∃ l ∈ ls, isBlankLine l = false
  · obtain ⟨l, hl, hlcontent⟩ := hcontent
    exact isIndent_of_mem_indentOf ((marginOf_prefix_indentOf hl hlcontent).subset h)
  · push Not at hcontent
    rw [marginOf_of_blank fun l hl => Bool.not_eq_false _ ▸ hcontent l hl] at h
    simp at h

/-- Spaces and tabs at the start of a line are part of its indentation. -/
theorem prefix_indentOf (hp : ∀ c ∈ p, isIndent c = true) (h : p <+: l) : p <+: indentOf l := by
  obtain ⟨s, rfl⟩ := h
  rw [indentOf, List.takeWhile_append_of_pos hp]
  exact List.prefix_append _ _

/-- What all lines with content start with in spaces and tabs, the margin starts with. -/
theorem prefix_marginOf_lines (hp : ∀ c ∈ p, isIndent c = true) (hl : l ∈ ls)
    (hcontent : isBlankLine l = false) (h : ∀ l ∈ ls, isBlankLine l = false → p <+: l) :
    p <+: marginOf ls :=
  prefix_marginOf hl hcontent fun l hl hlcontent => prefix_indentOf hp (h l hl hlcontent)

/-! ## Bytes -/

/-- The bytes of a text. -/
def bytesOf (s : List Char) : List UInt8 :=
  s.flatMap String.utf8EncodeChar

/-- The byte of a space or a tab. -/
def indentByte (c : Char) : UInt8 := if c = ' ' then 32 else 9

/-- Spaces and tabs are one byte each. -/
theorem bytesOf_of_isIndent (hs : ∀ c ∈ s, isIndent c = true) : bytesOf s = s.map indentByte := by
  induction s with
  | nil => rfl
  | cons c s ih =>
    obtain ⟨hc, hs⟩ := List.forall_mem_cons.mp hs
    have hbyte : String.utf8EncodeChar c = [indentByte c] := by
      rcases (by simpa [isIndent] using hc : c = ' ' ∨ c = '\t') with rfl | rfl <;> decide
    rw [bytesOf, List.flatMap_cons, hbyte]
    exact congrArg (indentByte c :: ·) (ih hs)

/-- Spaces and tabs can be told apart by their bytes. -/
theorem prefix_of_map_indentByte (hs : ∀ c ∈ s, isIndent c = true) (ht : ∀ c ∈ t, isIndent c = true)
    (h : s.map indentByte <+: t.map indentByte) : s <+: t := by
  induction s generalizing t with
  | nil => exact List.nil_prefix
  | cons c s ih =>
    cases t with
    | nil => simp at h
    | cons d t =>
      obtain ⟨hc, hs⟩ := List.forall_mem_cons.mp hs
      obtain ⟨hd, ht⟩ := List.forall_mem_cons.mp ht
      obtain ⟨hbyte, hrest⟩ := List.cons_prefix_cons.mp h
      have hsame : c = d := by
        have hblank : ∀ x, isIndent x = true → x = ' ' ∨ x = '\t' := by simp [isIndent]
        rcases hblank c hc with rfl | rfl <;> rcases hblank d hd with rfl | rfl <;>
          simp [indentByte] at hbyte ⊢
      exact List.cons_prefix_cons.mpr ⟨hsame, ih hs ht hrest⟩

/-- The bytes that all indentations start with, the bytes of the margin start with. -/
theorem bytes_prefix_marginOf {bytes : List UInt8} (hl : l ∈ ls) (hcontent : isBlankLine l = false)
    (h : ∀ l ∈ ls, isBlankLine l = false → bytes <+: bytesOf (indentOf l)) :
    bytes <+: bytesOf (marginOf ls) := by
  have hbytes : ∀ l, bytesOf (indentOf l) = (indentOf l).map indentByte := fun l =>
    bytesOf_of_isIndent fun _ => isIndent_of_mem_indentOf
  -- The bytes are those of the first characters of an indentation.
  have hstart : bytes = ((indentOf l).take bytes.length).map indentByte := by
    rw [List.map_take, ← hbytes]
    exact (List.prefix_iff_eq_take.mp (h l hl hcontent))
  generalize htake : (indentOf l).take bytes.length = q at hstart
  have hq : ∀ c ∈ q, isIndent c = true := fun c hc =>
    isIndent_of_mem_indentOf (List.mem_of_mem_take (htake ▸ hc))
  rw [bytesOf_of_isIndent fun _ => isIndent_of_mem_marginOf, hstart]
  refine List.IsPrefix.map _ (prefix_marginOf hl hcontent fun k hk hkcontent => ?_)
  refine prefix_of_map_indentByte hq (fun _ => isIndent_of_mem_indentOf) ?_
  rw [← hstart, ← hbytes]
  exact h k hk hkcontent

/-! ## Indenting -/

/-- A line with `p` in front of it, if it has content. -/
def indentLine (p l : List Char) : List Char :=
  if isBlankLine l then l else p ++ l

/-- The text with `p` in front of every line with content. -/
def indentText (p : List Char) (t : String) : String :=
  .ofList ((lines t.toList).map (indentLine p)).flatten

/-- A line behind some indentation is blank if it was. -/
theorem isBlankLine_append (hp : ∀ c ∈ p, isIndent c = true) :
    isBlankLine (p ++ l) = isBlankLine l := by
  have hblank : isBlankLine p = true := List.all_eq_true.mpr fun c hc => by rw [hp c hc]; rfl
  unfold isBlankLine at hblank ⊢
  rw [List.all_append, hblank, Bool.true_and]

/-- A line is blank before and after. -/
theorem isBlankLine_indentLine (hp : ∀ c ∈ p, isIndent c = true) :
    isBlankLine (indentLine p l) = isBlankLine l := by
  unfold indentLine
  split
  · rfl
  · exact isBlankLine_append hp

/-- Indenting leaves the ends of the lines where they are. -/
theorem lines_indentLines (hp : ∀ c ∈ p, isIndent c = true) (s : List Char) :
    lines ((lines s).map (indentLine p)).flatten = (lines s).map (indentLine p) := by
  have hfeed : '\n' ∉ p := fun h => absurd (hp _ h) (by decide)
  have hline : ∀ l, ∃ q, '\n' ∉ q ∧ indentLine p l = q ++ l := by
    intro l
    unfold indentLine
    split
    · exact ⟨[], by simp, rfl⟩
    · exact ⟨p, hfeed, rfl⟩
  induction s using lines_induction with
  | nil => rfl
  | last s hs hmem =>
    obtain ⟨q, hq, heq⟩ := hline s
    rw [lines_of_not_mem hs hmem, List.map_singleton, List.flatten_singleton, heq]
    exact lines_of_not_mem (by simp [hs]) (by simp [hq, hmem])
  | line a s ha ih =>
    obtain ⟨q, hq, heq⟩ := hline (a ++ ['\n'])
    have hqa : '\n' ∉ q ++ a := by simp [hq, ha]
    rw [lines_append_feed ha, List.map_cons, List.flatten_cons, heq, List.append_assoc,
      List.append_assoc, List.singleton_append, ← List.append_assoc, lines_append_feed hqa, ih,
      List.append_assoc]

/-- A common indentation goes in front of the longest common start. -/
theorem foldl_commonStart_map (p first : List Char) (rest : List (List Char)) :
    (rest.map (p ++ ·)).foldl commonStart (p ++ first) = p ++ rest.foldl commonStart first := by
  have hstep : ∀ s t, commonStart (p ++ s) (p ++ t) = p ++ commonStart s t := by
    intro s t
    induction p with
    | nil => rfl
    | cons c p ih => rw [List.cons_append, List.cons_append, commonStart, if_pos rfl, ih]; rfl
  induction rest generalizing first with
  | nil => rfl
  | cons t rest ih => rw [List.map_cons, List.foldl_cons, hstep, ih, List.foldl_cons]

/-- Where a line has content, the margin grows by what the lines are indented by. -/
theorem marginOf_indentLines (hp : ∀ c ∈ p, isIndent c = true) (hl : l ∈ ls)
    (hcontent : isBlankLine l = false) :
    marginOf (ls.map (indentLine p)) = p ++ marginOf ls := by
  have hindents : ((ls.map (indentLine p)).filter fun l => !isBlankLine l).map indentOf =
      ((ls.filter fun l => !isBlankLine l).map indentOf).map (p ++ ·) := by
    rw [List.filter_map, List.map_map, List.map_map]
    have hsame : ((fun l => !isBlankLine l) ∘ indentLine p) = fun l => !isBlankLine l :=
      funext fun l => congrArg not (isBlankLine_indentLine hp)
    rw [hsame]
    refine List.map_congr_left fun l hl => ?_
    have hlcontent : isBlankLine l = false := by simpa using (List.mem_filter.mp hl).2
    rw [Function.comp_apply, Function.comp_apply, indentLine, hlcontent]
    exact List.takeWhile_append_of_pos hp
  have hmem : indentOf l ∈ (ls.filter fun l => !isBlankLine l).map indentOf :=
    List.mem_map_of_mem (List.mem_filter.mpr ⟨hl, by simp [hcontent]⟩)
  unfold marginOf
  rw [hindents]
  cases hsplit : (ls.filter fun l => !isBlankLine l).map indentOf with
  | nil => simp [hsplit] at hmem
  | cons first rest => exact foldl_commonStart_map p first rest

/-- What is left of a line does not depend on its indentation. -/
theorem dedentLine_indentLine (hp : ∀ c ∈ p, isIndent c = true) (n : Nat) :
    dedentLine (p.length + n) (indentLine p l) = dedentLine n l := by
  have hblank : isBlankLine (indentLine p l) = isBlankLine l := isBlankLine_indentLine hp
  cases hl : isBlankLine l with
  | true =>
    rw [hl] at hblank
    rw [dedentLine_of_blank hblank, dedentLine_of_blank hl, indentLine, if_pos hl]
  | false =>
    rw [hl] at hblank
    have hindented : indentLine p l = p ++ l := by rw [indentLine, hl]; rfl
    rw [dedentLine_of_content hblank, dedentLine_of_content hl, hindented,
      List.drop_length_add_append]

/-- Indentation is taken away with the margin. -/
theorem dedent_indentText (hp : ∀ c ∈ p, isIndent c = true) (t : String) :
    dedent (indentText p t) = dedent t := by
  unfold dedent indentText
  rw [String.toList_ofList]
  refine congrArg String.ofList ?_
  by_cases hcontent : ∃ l ∈ lines t.toList, isBlankLine l = false
  · obtain ⟨l, hl, hlcontent⟩ := hcontent
    unfold dedentChars
    rw [lines_indentLines hp, marginOf_indentLines hp hl hlcontent, List.length_append,
      List.map_map]
    refine congrArg List.flatten (List.map_congr_left fun l _ => ?_)
    exact dedentLine_indentLine hp _
  · -- Blank lines are not indented.
    push Not at hcontent
    have hsame : (lines t.toList).map (indentLine p) = lines t.toList := by
      conv_rhs => rw [← List.map_id (lines t.toList)]
      refine List.map_congr_left fun l hl => ?_
      rw [indentLine, if_pos (Bool.not_eq_false _ ▸ hcontent l hl)]
      rfl
    rw [hsame, flatten_lines]

end UdfBridge.Text
