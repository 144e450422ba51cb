/-!
# Where a word stands in a text

`splitAtFirst w s` is what stands before and behind the first place where `w` stands in `s`. A text
that a word closes is split there if the word stands nowhere else: not in the text itself, and not
astride an end of the closing word. That is so if the text ends with a character that the word does
not have, and what follows has none of its characters (`Closes`).
-/

namespace UdfBridge.Text

/-- The text before and behind the first place where `w` stands. -/
def splitAtFirst (w : List Char) : List Char → Option (List Char × List Char)
  | [] => if w.isEmpty then some ([], []) else none
  | c :: s =>
    if w.isPrefixOf (c :: s) then some ([], (c :: s).drop w.length)
    else (splitAtFirst w s).map fun (before, behind) => (c :: before, behind)

/-- The text is split at the first place where the word stands: no other has less before it. -/
theorem splitAtFirst_eq_some_of_first {w s a b : List Char} (hs : s = a ++ w ++ b)
    (hfirst : ∀ a' b', s = a' ++ w ++ b' → a.length ≤ a'.length) :
    splitAtFirst w s = some (a, b) := by
  induction s generalizing a with
  | nil =>
    obtain ⟨rfl, rfl, rfl⟩ : a = [] ∧ w = [] ∧ b = [] := by simpa using hs.symm
    rfl
  | cons c s ih =>
    unfold splitAtFirst
    by_cases hpre : w.isPrefixOf (c :: s) = true
    · -- The word stands at the start, so nothing stands before it.
      obtain ⟨t, ht⟩ := List.isPrefixOf_iff_prefix.mp hpre
      obtain rfl : a = [] := by
        have := hfirst [] t (by rw [List.nil_append, ht])
        exact List.length_eq_zero_iff.mp (Nat.le_zero.mp this)
      rw [if_pos hpre, hs, List.nil_append, List.drop_left]
    · rw [if_neg hpre]
      cases a with
      | nil =>
        have : w <+: c :: s := ⟨b, by rw [hs, List.nil_append]⟩
        exact absurd (List.isPrefixOf_iff_prefix.mpr this) hpre
      | cons d a =>
        obtain ⟨rfl, htail⟩ : c = d ∧ s = a ++ w ++ b := by simpa using hs
        have hfirst' : ∀ a' b', s = a' ++ w ++ b' → a.length ≤ a'.length := by
          intro a' b' h
          have := hfirst (c :: a') b' (by rw [h, List.cons_append, List.cons_append])
          simpa using this
        rw [ih htail hfirst']
        rfl

/-- A word does not stand astride its own end and a rest without any of its characters: its last
character would stand in the rest. -/
theorem eq_nil_of_rest_apart {w r x b : List Char} (hw : w ≠ []) (hrest : ∀ c ∈ r, c ∉ w)
    (h : w ++ r = x ++ (w ++ b)) : x = [] := by
  cases x with
  | nil => rfl
  | cons d x =>
    exfalso
    obtain ⟨v, c, hvc⟩ := List.eq_nil_or_concat w |>.resolve_left hw
    rw [List.concat_eq_append] at hvc
    have hsplit : w ++ r = (d :: x ++ v) ++ c :: b := by
      rw [h]
      simp [hvc]
    -- Behind `x` and the rest of the word, `c` stands where the first copy has ended.
    have hmem : c ∈ r := by
      rcases List.append_eq_append_iff.mp hsplit with ⟨y, -, hr⟩ | ⟨y, hy, hr⟩
      · simp [hr]
      · have hlength := congrArg List.length hy
        simp only [hvc, List.length_append, List.length_cons, List.length_nil] at hlength
        obtain rfl : y = [] := List.length_eq_zero_iff.mp (by omega)
        rw [List.nil_append] at hr
        rw [← hr]
        exact List.mem_cons_self
    exact hrest c hmem (by simp [hvc])

/-- A word that does not stand in a text does not stand astride its end either, if the text ends
with a character outside of the word. -/
theorem eq_nil_of_text_apart {w r a x b : List Char} (hno : ¬ w <:+: a ++ x)
    (hlast : ∀ c ∈ (a ++ x).getLast?, c ∉ w) (h : w ++ b = x ++ (w ++ r)) : x = [] := by
  rcases List.eq_nil_or_concat x with hnil | ⟨y, c, hyc⟩
  · exact hnil
  · exfalso
    rw [List.concat_eq_append] at hyc
    have hc : c ∉ w := hlast c (by simp [hyc])
    -- Either the word ends within `x`, or all of `x` stands in the word.
    rcases List.append_eq_append_iff.mp h with ⟨z, hz, -⟩ | ⟨z, hz, -⟩
    · exact hno ⟨a, z, by rw [hz, List.append_assoc]⟩
    · exact hc (by simp [hz, hyc])

/-- The word `w` closes the text `s` before the rest `r`: it does not stand in the text, and neither
the end of the text nor the rest can be a part of it. -/
structure Closes (w s r : List Char) : Prop where
  /-- The word is not empty. -/
  ne_nil : w ≠ []
  /-- The word does not stand in the text. -/
  free : ¬ w <:+: s
  /-- The last character of the text is not in the word. -/
  not_mem_last : ∀ c ∈ s.getLast?, c ∉ w
  /-- No character of the rest is in the word. -/
  not_mem_rest : ∀ c ∈ r, c ∉ w

namespace Closes

variable {w s r : List Char}

/-- A word that closes a text stands nowhere else. -/
theorem eq_append_iff (h : Closes w s r) (a b : List Char) :
    s ++ w ++ r = a ++ w ++ b ↔ a = s ∧ b = r := by
  constructor
  · intro heq
    rw [List.append_assoc, List.append_assoc] at heq
    have hboth : a = s → a = s ∧ b = r := by
      rintro rfl
      rw [List.append_cancel_left_eq, List.append_cancel_left_eq] at heq
      exact ⟨rfl, heq.symm⟩
    rcases List.append_eq_append_iff.mp heq with ⟨x, hx, hbehind⟩ | ⟨x, hx, hbehind⟩
    · obtain rfl := eq_nil_of_rest_apart h.ne_nil h.not_mem_rest hbehind
      exact hboth (by rw [hx, List.append_nil])
    · have hno := h.free
      have hlast := h.not_mem_last
      rw [hx] at hno hlast
      obtain rfl := eq_nil_of_text_apart hno hlast hbehind
      exact hboth (by rw [hx, List.append_nil])
  · rintro ⟨rfl, rfl⟩
    rfl

/-- A text is split from the rest at the word that closes it. -/
theorem splitAtFirst_eq (h : Closes w s r) : splitAtFirst w (s ++ w ++ r) = some (s, r) := by
  refine splitAtFirst_eq_some_of_first rfl ?_
  intro a b heq
  obtain ⟨rfl, -⟩ := (h.eq_append_iff a b).mp heq
  exact Nat.le_refl _

end Closes

end UdfBridge.Text
