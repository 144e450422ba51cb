/-!
# Texts that are told apart

A writer gives a text for each value. Two values are told apart before certain rests if their texts,
each with such a rest behind it, are equal only if the values and the rests are (`Apart`): then the
text says where it ends and what it stands for. A text that a reader reads back with any such rest
is told apart from all others (`apart_of_read`), and so is every text of a prefix-free code
(`apart_of_prefixFree`). What holds of the members of a list holds of the list with separators
between them (`apart_intercalate`).
-/

namespace UdfBridge.Text

variable {α : Type}

/-- The texts of `a` and `b` are told apart, and from the rests behind them that `ends` allows. -/
def Apart (write : α → List Char) (ends : List Char → Prop) (a b : α) : Prop :=
  ∀ r t, ends r → ends t → write a ++ r = write b ++ t → a = b ∧ r = t

/-- What is read back is told apart. -/
theorem apart_of_read {write : α → List Char} {ends : List Char → Prop}
    (read : List Char → Option (α × List Char))
    (hread : ∀ a r, ends r → read (write a ++ r) = some (a, r)) (a b : α) :
    Apart write ends a b := by
  intro r t hr ht h
  have ha := hread a r hr
  rw [h, hread b t ht, Option.some.injEq, Prod.mk.injEq] at ha
  exact ⟨ha.1.symm, ha.2.symm⟩

/-- The texts of a prefix-free code are told apart before any rests. -/
theorem apart_of_prefixFree {write : α → List Char} (hfree : ∀ a b, write a <+: write b → a = b)
    (ends : List Char → Prop) (a b : α) : Apart write ends a b := by
  intro r t _ _ h
  have ha : write a <+: write b ++ t := ⟨r, h⟩
  have hab : a = b := by
    rcases List.prefix_or_prefix_of_prefix ha (List.prefix_append _ _) with hpre | hpre
    · exact hfree a b hpre
    · exact (hfree b a hpre).symm
  subst hab
  exact ⟨rfl, List.append_cancel_left h⟩

/-- A run of characters that `p` accepts is cut from a rest that does not go on with one. -/
theorem span_append {p : Char → Bool} {s r : List Char} (hs : ∀ c ∈ s, p c = true)
    (hr : ∀ c ∈ r.head?, p c = false) :
    (s ++ r).takeWhile p = s ∧ (s ++ r).dropWhile p = r := by
  rw [List.takeWhile_append_of_pos hs, List.dropWhile_append_of_pos hs]
  cases r with
  | nil => simp
  | cons c r =>
    have hc := hr c rfl
    simp [hc]

/-- Runs of characters that `p` accepts are told apart from rests that do not go on with one. -/
theorem append_inj_of_span {p : Char → Bool} {s s' r r' : List Char} (hs : ∀ c ∈ s, p c = true)
    (hs' : ∀ c ∈ s', p c = true) (hr : ∀ c ∈ r.head?, p c = false)
    (hr' : ∀ c ∈ r'.head?, p c = false) (h : s ++ r = s' ++ r') : s = s' ∧ r = r' := by
  obtain ⟨htake, hdrop⟩ := span_append hs hr
  obtain ⟨htake', hdrop'⟩ := span_append hs' hr'
  rw [h] at htake hdrop
  exact ⟨htake.symm.trans htake', hdrop.symm.trans hdrop'⟩

/-- Numbers are told apart by their decimal digits. -/
theorem toDigits_inj {m n : Nat} (h : Nat.toDigits 10 m = Nat.toDigits 10 n) : m = n := by
  have hvalue := congrArg (fun ds => Nat.ofDigitChars 10 ds 0) h
  simpa only [Nat.ofDigitChars_ten_toDigits] using hvalue

/-- What stands behind the first member of a list: a separator and the other members, if there are
any, and then the rest. -/
def behindFirst (sep : List Char) (write : α → List Char) : List α → List Char → List Char
  | [], r => r
  | b :: bs, r => sep ++ (sep.intercalate ((b :: bs).map write) ++ r)

/-- A list is written as its first member and what stands behind it. -/
theorem intercalate_append_eq (sep : List Char) (write : α → List Char) (a : α) (as : List α)
    (r : List Char) :
    sep.intercalate ((a :: as).map write) ++ r = write a ++ behindFirst sep write as r := by
  cases as with
  | nil => rw [List.map_singleton, List.intercalate_singleton, behindFirst]
  | cons b bs =>
    rw [List.map_cons, List.map_cons, List.intercalate_cons_cons, behindFirst, List.map_cons,
      List.append_assoc, List.append_assoc]

/-- A written list has no other characters than its members and the separator. -/
theorem not_mem_intercalate {c : Char} {sep : List Char} (hsep : c ∉ sep) {ss : List (List Char)}
    (h : ∀ s ∈ ss, c ∉ s) : c ∉ sep.intercalate ss := by
  induction ss with
  | nil => exact List.not_mem_nil
  | cons s ss ih =>
    obtain ⟨hs, hss⟩ := List.forall_mem_cons.mp h
    cases ss with
    | nil => rwa [List.intercalate_singleton]
    | cons t ss =>
      rw [List.intercalate_cons_cons, List.mem_append, List.mem_append]
      rintro ((hmem | hmem) | hmem)
      · exact hs hmem
      · exact hsep hmem
      · exact ih hss hmem

/-- A member can end where the separator or the end of the list stands behind it. -/
theorem ends_behindFirst {write : α → List Char} {ends closes : List Char → Prop} {sep : List Char}
    (hsep : ∀ r, ends (sep ++ r)) (hcloses : ∀ r, closes r → ends r) (as : List α) {r : List Char}
    (hr : closes r) : ends (behindFirst sep write as r) := by
  cases as with
  | nil => exact hcloses r hr
  | cons a as => exact hsep _

/-- Lists with separators between their members are told apart before rests that `closes` allows, if
the members are before those and before separators, and a rest starts neither like a separator nor
like a member. -/
theorem apart_intercalate {write : α → List Char} {ends closes : List Char → Prop}
    {sep : List Char} (hsep : ∀ r, ends (sep ++ r)) (hcloses : ∀ r, closes r → ends r)
    (hnosep : ∀ r, closes r → ¬ sep <+: r) (as bs : List α)
    (hnomember : ∀ r, closes r → ∀ a, a ∈ as ∨ a ∈ bs → ¬ write a <+: r)
    (h : ∀ a ∈ as, ∀ b ∈ bs, Apart write ends a b) :
    Apart (fun cs => sep.intercalate (cs.map write)) closes as bs := by
  intro r t hr ht heq
  dsimp only at heq
  induction as generalizing bs with
  | nil =>
    cases bs with
    | nil => exact ⟨rfl, heq⟩
    | cons b bs =>
      -- The rest behind the empty list would start with a member of the other one.
      rw [intercalate_append_eq] at heq
      exact absurd ⟨_, heq.symm⟩ (hnomember r hr b (.inr List.mem_cons_self))
  | cons a as ih =>
    cases bs with
    | nil =>
      rw [intercalate_append_eq] at heq
      exact absurd ⟨_, heq⟩ (hnomember t ht a (.inl List.mem_cons_self))
    | cons b bs =>
      rw [intercalate_append_eq, intercalate_append_eq] at heq
      obtain ⟨rfl, hrest⟩ := h a List.mem_cons_self b List.mem_cons_self _ _
        (ends_behindFirst hsep hcloses as hr) (ends_behindFirst hsep hcloses bs ht) heq
      -- Either both lists end here, or both go on with a separator.
      cases as with
      | nil =>
        cases bs with
        | nil => exact ⟨rfl, hrest⟩
        | cons b bs => exact absurd ⟨_, hrest.symm⟩ (hnosep r hr)
      | cons a' as =>
        cases bs with
        | nil => exact absurd ⟨_, hrest⟩ (hnosep t ht)
        | cons b bs =>
          obtain ⟨htail, hrt⟩ := ih (b :: bs)
            (fun u hu c hc => hnomember u hu c
              (hc.imp (List.mem_cons_of_mem _) (List.mem_cons_of_mem _)))
            (fun c hc d hd => h c (List.mem_cons_of_mem _ hc) d (List.mem_cons_of_mem _ hd))
            (List.append_cancel_left hrest)
          exact ⟨congrArg _ htail, hrt⟩

end UdfBridge.Text
