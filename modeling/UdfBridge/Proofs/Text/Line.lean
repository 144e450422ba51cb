import Mathlib.Data.List.DropRight
import UdfBridge.Text.Line

/-!
# The line on which a place stands

A place in a text has the number of line feeds before it, and the text is cut at lines. The two meet
in `fromLine_count`: cut at the number of the line of a place, the text keeps what stands behind the
last line feed before the place, and all that follows.
-/

namespace UdfBridge.Text

/-- The last line of a text, if no line feed ends it. -/
def unfinishedLine (s : List Char) : List Char :=
  s.rtakeWhile (· != '\n')

/-- An empty text has nothing on its last line. -/
@[simp] theorem unfinishedLine_nil : unfinishedLine [] = [] := rfl

/-- A character before a line feed is not on the last line. -/
theorem unfinishedLine_cons_of_mem {c : Char} {s : List Char} (h : '\n' ∈ c :: s) :
    unfinishedLine (c :: s) = unfinishedLine s := by
  unfold unfinishedLine List.rtakeWhile
  rw [List.reverse_cons]
  by_cases hs : '\n' ∈ s
  · rw [List.takeWhile_append, if_neg]
    intro hall
    have hpre : s.reverse.takeWhile (· != '\n') = s.reverse :=
      (List.takeWhile_prefix _).eq_of_length hall
    have := List.takeWhile_eq_self_iff.mp hpre '\n' (List.mem_reverse.mpr hs)
    simp at this
  · have hc : c = '\n' := by
      rcases List.mem_cons.mp h with hc | hs'
      · exact hc.symm
      · exact absurd hs' hs
    have hall : ∀ x ∈ s.reverse, (x != '\n') = true := by
      intro x hx
      have : x ≠ '\n' := fun e => hs (by rw [← e]; exact List.mem_reverse.mp hx)
      simpa using this
    rw [List.takeWhile_append_of_pos hall, List.takeWhile_eq_self_iff.mpr hall, hc]
    simp

/-- A text without line feeds is one line. -/
theorem unfinishedLine_of_not_mem {s : List Char} (h : '\n' ∉ s) : unfinishedLine s = s := by
  unfold unfinishedLine
  rw [List.rtakeWhile_eq_self_iff]
  intro x hx
  have : x ≠ '\n' := fun e => h (e ▸ hx)
  simpa using this

/-- What stands on the last line is a part of it. -/
theorem unfinishedLine_append (s : List Char) {t : List Char} (h : '\n' ∉ t) :
    unfinishedLine (s ++ t) = unfinishedLine s ++ t := by
  unfold unfinishedLine
  induction t using List.reverseRecOn with
  | nil => simp
  | append_singleton t c ih =>
    rw [List.mem_append, not_or] at h
    have hne : c ≠ '\n' := fun hc => h.2 (List.mem_singleton.mpr hc.symm)
    have hc : (c != '\n') = true := bne_iff_ne.mpr hne
    rw [← List.append_assoc, List.rtakeWhile_concat_pos (· != '\n') _ c hc, ih h.1, List.append_assoc]

/-- Behind a line feed no line has begun. -/
theorem unfinishedLine_of_getLast? {s : List Char} (h : s.getLast? = some '\n') :
    unfinishedLine s = [] := by
  obtain ⟨t, rfl⟩ := List.getLast?_eq_some_iff.mp h
  exact List.rtakeWhile_concat_neg _ _ _ (by simp)

/-- An unfinished line has no line feed. -/
theorem not_mem_unfinishedLine (s : List Char) : '\n' ∉ unfinishedLine s := by
  intro hmem
  have := List.mem_rtakeWhile_imp hmem
  simp at this

/-- The last line of a text ends the text. -/
theorem unfinishedLine_suffix (s : List Char) : unfinishedLine s <:+ s :=
  List.rtakeWhile_suffix _ _

/-- From the line on which a place stands, a text keeps the part of that line before the place and
all that follows. -/
theorem fromLine_count (s t : List Char) :
    fromLine (s.count '\n' + 1) (s ++ t) = unfinishedLine s ++ t := by
  induction s with
  | nil => exact fromLine_one t
  | cons c s ih =>
    unfold fromLine at ih ⊢
    rw [Nat.add_sub_cancel] at ih ⊢
    rw [List.cons_append, lines]
    by_cases hc : c = '\n'
    · rw [if_pos hc, hc, List.count_cons_self, List.drop_succ_cons, ih,
        unfinishedLine_cons_of_mem List.mem_cons_self]
    · rw [if_neg hc, List.count_cons_of_ne hc]
      by_cases hs : '\n' ∈ s
      · rw [unfinishedLine_cons_of_mem (List.mem_cons_of_mem c hs), ← ih]
        obtain ⟨k, hk⟩ := Nat.exists_eq_succ_of_ne_zero (List.count_pos_iff.mpr hs).ne'
        rw [hk]
        -- The first line is dropped, so it does not matter that `c` stands in it.
        cases lines (s ++ t) with
        | nil => simp
        | cons l ls => rfl
      · have hnone : '\n' ∉ c :: s := by
          intro hmem
          rcases List.mem_cons.mp hmem with h | h
          · exact hc h.symm
          · exact hs h
        have hflat := flatten_lines (c :: (s ++ t))
        rw [lines, if_neg hc] at hflat
        rw [List.count_eq_zero.mpr hs, List.drop_zero, hflat, unfinishedLine_of_not_mem hnone]
        rfl

/-- Every carriage return has a line feed behind it. -/
def ReturnsPaired (s : List Char) : Prop :=
  ∀ a b, s = a ++ '\r' :: b → b.head? = some '\n'

end UdfBridge.Text
