import UdfBridge.Proofs.Text.Margin
import UdfBridge.Text.Blank

/-!
# Line endings of two characters

`crlf` puts a carriage return before every line feed. Lines end at line feeds alone, and a carriage
return before one is part of the line ending for every operation on texts: it changes no line number
(`count_crlf`, `lines_crlf`), no indentation, and no margin (`dedentChars_crlf`), and it is white
space at the end of a text like the line feed behind it (`trimChars_crlf`).
-/

namespace UdfBridge.Text

/-- `s` with a carriage return before every line feed. -/
def crlf (s : List Char) : List Char :=
  s.flatMap fun c => if c = '\n' then ['\r', '\n'] else [c]

/-- The text with a carriage return before every line feed. -/
def crlfText (s : String) : String :=
  .ofList (crlf s.toList)

/-- The text with carriage returns has the characters with carriage returns. -/
theorem toList_crlfText (s : String) : (crlfText s).toList = crlf s.toList :=
  String.toList_ofList

variable {c : Char} {s t l : List Char}

/-- An empty text gets no carriage return. -/
@[simp] theorem crlf_nil : crlf [] = [] := rfl

/-- A line feed gets a carriage return in front of it. -/
@[simp] theorem crlf_feed (s : List Char) : crlf ('\n' :: s) = '\r' :: '\n' :: crlf s := rfl

/-- Any other character stays as it is. -/
theorem crlf_cons (h : c ≠ '\n') (s : List Char) : crlf (c :: s) = c :: crlf s := by
  unfold crlf
  rw [List.flatMap_cons, if_neg h]
  rfl

/-- The line feeds of two texts get their carriage returns in each of them. -/
@[simp] theorem crlf_append (s t : List Char) : crlf (s ++ t) = crlf s ++ crlf t :=
  List.flatMap_append

/-- Without line feeds a text stays as it is. -/
theorem crlf_of_not_mem (h : '\n' ∉ s) : crlf s = s := by
  induction s with
  | nil => rfl
  | cons c s ih =>
    rw [List.mem_cons, not_or] at h
    rw [crlf_cons (fun e => h.1 e.symm), ih h.2]

/-- The lines joined are the text, whatever they end with. -/
theorem flatten_map_crlf (ls : List (List Char)) : (ls.map crlf).flatten = crlf ls.flatten := by
  induction ls with
  | nil => rfl
  | cons l ls ih => rw [List.map_cons, List.flatten_cons, ih, List.flatten_cons, crlf_append]

/-- No carriage return is a line feed. -/
@[simp] theorem count_crlf (s : List Char) : (crlf s).count '\n' = s.count '\n' := by
  induction s with
  | nil => rfl
  | cons c s ih =>
    by_cases hc : c = '\n'
    · subst hc
      rw [crlf_feed, List.count_cons_of_ne (by decide), List.count_cons_self,
        List.count_cons_self, ih]
    · rw [crlf_cons hc, List.count_cons_of_ne hc, List.count_cons_of_ne hc, ih]

/-- A text gets no shorter. -/
theorem length_le_crlf (s : List Char) : s.length ≤ (crlf s).length := by
  induction s with
  | nil => exact Nat.le_refl _
  | cons c s ih =>
    by_cases hc : c = '\n'
    · subst hc
      rw [crlf_feed, List.length_cons, List.length_cons, List.length_cons]
      omega
    · rw [crlf_cons hc, List.length_cons, List.length_cons]
      omega

/-! ## Characters of one kind at the ends -/

section Kinds

variable {p : Char → Bool}

/-- What a text starts with does not depend on its line endings, if `p` does not tell the two
characters of one apart. -/
theorem takeWhile_crlf (h : p '\r' = p '\n') (s : List Char) :
    (crlf s).takeWhile p = crlf (s.takeWhile p) := by
  induction s with
  | nil => rfl
  | cons c s ih =>
    by_cases hc : c = '\n'
    · subst hc
      rw [crlf_feed, List.takeWhile_cons, List.takeWhile_cons, ih, List.takeWhile_cons, h]
      split <;> rfl
    · rw [crlf_cons hc, List.takeWhile_cons, ih, List.takeWhile_cons]
      split
      · rw [crlf_cons hc]
      · rfl

/-- Dropping what comes first commutes with the carriage returns, if it treats both signs of a line
end alike. -/
theorem dropWhile_crlf (h : p '\r' = p '\n') (s : List Char) :
    (crlf s).dropWhile p = crlf (s.dropWhile p) := by
  refine (List.append_right_inj (crlf (s.takeWhile p))).mp ?_
  calc crlf (s.takeWhile p) ++ (crlf s).dropWhile p
      = (crlf s).takeWhile p ++ (crlf s).dropWhile p := by rw [takeWhile_crlf h]
    _ = crlf s := List.takeWhile_append_dropWhile
    _ = crlf (s.takeWhile p) ++ crlf (s.dropWhile p) := by
      rw [← crlf_append, List.takeWhile_append_dropWhile]

/-- What a text ends with does not depend on its line endings, if a carriage return is passed over
with its line feed. -/
theorem rtakeWhile_crlf (h : p '\n' = true → p '\r' = true) (s : List Char) :
    (crlf s).rtakeWhile p = crlf (s.rtakeWhile p) := by
  induction s using List.reverseRecOn with
  | nil => rfl
  | append_singleton s c ih =>
    by_cases hc : c = '\n'
    · subst hc
      have hends : crlf (s ++ ['\n']) = (crlf s ++ ['\r']) ++ ['\n'] := by simp
      rw [hends]
      by_cases hp : p '\n' = true
      · rw [List.rtakeWhile_concat_pos _ _ _ hp, List.rtakeWhile_concat_pos _ _ _ (h hp), ih,
          List.rtakeWhile_concat_pos _ _ _ hp]
        simp
      · rw [List.rtakeWhile_concat_neg _ _ _ hp, List.rtakeWhile_concat_neg _ _ _ hp, crlf_nil]
    · rw [crlf_append, crlf_cons hc, crlf_nil]
      by_cases hp : p c = true
      · rw [List.rtakeWhile_concat_pos _ _ _ hp, List.rtakeWhile_concat_pos _ _ _ hp, ih,
          crlf_append, crlf_cons hc, crlf_nil]
      · rw [List.rtakeWhile_concat_neg _ _ _ hp, List.rtakeWhile_concat_neg _ _ _ hp, crlf_nil]

/-- Dropping what comes last commutes with the carriage returns, if the carriage return goes with
the line feed. -/
theorem rdropWhile_crlf (h : p '\n' = true → p '\r' = true) (s : List Char) :
    (crlf s).rdropWhile p = crlf (s.rdropWhile p) := by
  refine (List.append_left_inj (crlf (s.rtakeWhile p))).mp ?_
  calc (crlf s).rdropWhile p ++ crlf (s.rtakeWhile p)
      = (crlf s).rdropWhile p ++ (crlf s).rtakeWhile p := by rw [rtakeWhile_crlf h]
    _ = crlf s := List.rdropWhile_append_rtakeWhile
    _ = crlf (s.rdropWhile p) ++ crlf (s.rtakeWhile p) := by
      rw [← crlf_append, List.rdropWhile_append_rtakeWhile]

end Kinds

/-! ## Lines -/

/-- The lines are the same lines with other endings. -/
theorem lines_crlf (s : List Char) : lines (crlf s) = (lines s).map crlf := by
  induction s using lines_induction with
  | nil => rfl
  | last s hs h =>
    rw [crlf_of_not_mem h, lines_of_not_mem hs h, List.map_singleton, crlf_of_not_mem h]
  | line a s ha ih =>
    have hreturn : '\n' ∉ a ++ ['\r'] := by simp [ha]
    have hline := lines_append_feed hreturn (crlf s)
    rw [List.append_assoc, List.singleton_append] at hline
    rw [crlf_append, crlf_feed, crlf_of_not_mem ha, hline, ih, lines_append_feed ha, List.map_cons,
      crlf_append, crlf_of_not_mem ha]
    simp

/-- The last line, which no line feed ends, is the same with carriage returns in it. -/
theorem unfinishedLine_crlf (s : List Char) : unfinishedLine (crlf s) = crlf (unfinishedLine s) :=
  rtakeWhile_crlf (by simp) s

/-! ## White space -/

/-- White space at the end is trimmed as before. -/
theorem trimEndChars_crlf (s : List Char) : trimEndChars (crlf s) = crlf (trimEndChars s) :=
  rdropWhile_crlf (by decide) s

/-- White space at both ends is trimmed as before. -/
theorem trimChars_crlf (s : List Char) : trimChars (crlf s) = crlf (trimChars s) := by
  unfold trimChars
  rw [dropWhile_crlf (by decide), trimEndChars_crlf]

/-- What is trimmed off a text does not depend on its line endings. -/
theorem trim_crlfText (s : String) : trim (crlfText s) = crlfText (trim s) := by
  unfold trim crlfText
  rw [String.toList_ofList, String.toList_ofList, trimChars_crlf]

/-! ## Margins -/

/-- No line feed is in an indentation. -/
theorem not_mem_indentOf (l : List Char) : '\n' ∉ indentOf l := fun hmem => by
  have := List.mem_takeWhile_imp hmem
  simp [isIndent] at this

/-- The indentation of a line stays as it is. -/
theorem indentOf_crlf (l : List Char) : indentOf (crlf l) = indentOf l :=
  (takeWhile_crlf (by decide) l).trans (crlf_of_not_mem (not_mem_indentOf l))

/-- Blank lines stay blank, and others do not become so. -/
theorem isBlankLine_crlf (l : List Char) : isBlankLine (crlf l) = isBlankLine l := by
  unfold isBlankLine
  induction l with
  | nil => rfl
  | cons c l ih =>
    by_cases hc : c = '\n'
    · subst hc
      rw [crlf_feed, List.all_cons, List.all_cons, ih, List.all_cons]
      rfl
    · rw [crlf_cons hc, List.all_cons, List.all_cons, ih]

/-- The margin of some lines stays as it is. -/
theorem marginOf_crlf (ls : List (List Char)) : marginOf (ls.map crlf) = marginOf ls := by
  unfold marginOf
  have hindents : ((ls.map crlf).filter fun l => !isBlankLine l).map indentOf =
      (ls.filter fun l => !isBlankLine l).map indentOf := by
    rw [List.filter_map, List.map_map]
    have hblank : ((fun l => !isBlankLine l) ∘ crlf) = fun l => !isBlankLine l :=
      funext fun l => congrArg _ (isBlankLine_crlf l)
    have hindent : (indentOf ∘ crlf) = indentOf := funext indentOf_crlf
    rw [hblank, hindent]
  rw [hindents]

/-- A line loses the same indentation as before. -/
theorem dedentLine_crlf {n : Nat} (h : isBlankLine l = false → n ≤ (indentOf l).length) :
    dedentLine n (crlf l) = crlf (dedentLine n l) := by
  cases hblank : isBlankLine l with
  | true =>
    rw [dedentLine_of_blank hblank, dedentLine_of_blank ((isBlankLine_crlf l).trans hblank)]
    exact rtakeWhile_crlf (fun _ => by decide) l
  | false =>
    rw [dedentLine_of_content hblank, dedentLine_of_content ((isBlankLine_crlf l).trans hblank)]
    have hl : l = indentOf l ++ l.dropWhile isIndent := List.takeWhile_append_dropWhile.symm
    have hindent := not_mem_indentOf l
    -- No line feed stands in the part of the line that is dropped.
    conv_lhs =>
      rw [hl, crlf_append, crlf_of_not_mem hindent, List.drop_append_of_le_length (h hblank)]
    conv_rhs => rw [hl, List.drop_append_of_le_length (h hblank), crlf_append,
      crlf_of_not_mem fun hmem => hindent (List.mem_of_mem_drop hmem)]

/-- The margin of a text does not depend on its line endings. -/
theorem dedentChars_crlf (s : List Char) : dedentChars (crlf s) = crlf (dedentChars s) := by
  unfold dedentChars
  rw [lines_crlf, marginOf_crlf, List.map_map, ← flatten_map_crlf, List.map_map]
  refine congrArg _ (List.map_congr_left fun l hl => ?_)
  exact dedentLine_crlf (indentedBy_margin s l hl)

/-- A text loses its margin as before. -/
theorem dedent_crlfText (s : String) : dedent (crlfText s) = crlfText (dedent s) := by
  unfold dedent crlfText
  rw [String.toList_ofList, String.toList_ofList, dedentChars_crlf]

/-- Dedenting brings no character into a text. -/
theorem mem_of_mem_dedent {s : String} (h : c ∈ (dedent s).toList) : c ∈ s.toList := by
  unfold dedent at h
  rw [String.toList_ofList, dedentChars, List.mem_flatten] at h
  obtain ⟨l', hl', hmem⟩ := h
  obtain ⟨l, hl, rfl⟩ := List.mem_map.mp hl'
  have hc : c ∈ l := by
    unfold dedentLine at hmem
    split at hmem
    · exact List.mem_reverse.mp ((List.takeWhile_prefix _).subset (List.mem_reverse.mp hmem))
    · exact List.mem_of_mem_drop hmem
  rw [← flatten_lines s.toList]
  exact List.mem_flatten.mpr ⟨l, hl, hc⟩

end UdfBridge.Text
