/-!
# Dollar quotes

The body of a routine stands between two equal tags, so the tag must not occur in it. The tags are
tried in a fixed order, `$$`, `$pgudf$`, `$pgudf_1$`, `$pgudf_2$`, …, and the first that does not
occur is taken. There is one: a tag that occurs in a text is no longer than it, and the tags with
a number grow with its digits.
-/

namespace UdfBridge.Routine

/-- Whether `w` occurs in a text. -/
def occursIn (w : List Char) : List Char → Bool
  | [] => w.isEmpty
  | c :: s => w.isPrefixOf (c :: s) || occursIn w s

/-- What occurs in a text is no longer than it. -/
theorem length_le_of_occursIn {w s : List Char} (h : occursIn w s = true) :
    w.length ≤ s.length := by
  induction s with
  | nil => simp_all [occursIn]
  | cons c s ih =>
    rw [occursIn, Bool.or_eq_true] at h
    rcases h with h | h
    · exact (List.isPrefixOf_iff_prefix.mp h).length_le
    · exact Nat.le_succ_of_le (ih h)

/-- The tag that is tried as number `n`, from 0. -/
def tag : Nat → List Char
  | 0 => ['$', '$']
  | 1 => ['$', 'p', 'g', 'u', 'd', 'f', '$']
  | n + 2 => ['$', 'p', 'g', 'u', 'd', 'f', '_'] ++ Nat.toDigits 10 (n + 1) ++ ['$']

/-- A tag that is no longer than a text has a number of no more digits than the text is long. -/
theorem lt_of_length_tag_le {n k : Nat} (h : (tag n).length ≤ k) : n < Nat.pow 10 k + 2 := by
  match n with
  | 0 | 1 => exact Nat.lt_add_left _ (by decide)
  | n + 2 =>
    simp only [tag, List.length_append, List.length_cons, List.length_nil] at h
    have hlt := (Nat.length_toDigits_le_iff (n := n + 1) (k := k) (show 1 < 10 by decide)
      (by omega)).mp (by omega)
    exact Nat.add_lt_add_right (Nat.lt_of_succ_lt hlt) 2

/-- The first tag, from number `n` on, that does not occur in `s`. -/
def freeTagFrom (s : List Char) (n : Nat) : List Char :=
  if _h : occursIn (tag n) s = true then freeTagFrom s (n + 1) else tag n
termination_by Nat.pow 10 s.length + 2 - n
decreasing_by
  have := lt_of_length_tag_le (length_le_of_occursIn _h)
  omega

/-- The first tag that does not occur in `s`. -/
def freeTag (s : List Char) : List Char :=
  freeTagFrom s 0

end UdfBridge.Routine
