import UdfBridge.Types.Abstract

/-!
# The numeric tower

Whether a value passes without a cast is told by the kinds of the two types, and which type an
arithmetic result has by their places in the tower. Both come to the same order: the integers stand
at the bottom, the floats on them and the decimals on top, and a value of a type of the tower passes
exactly where a type at its place or above is expected (`castableTo_iff_below`). So the higher of two
types is the least one that both pass for, and the highest of some types is the least one that all
of them pass for (`IsHighest.castableTo_iff`).

A constant has the narrowest integer type that holds it, which passes for just those integer types
that hold it.
-/

namespace UdfBridge.DataType

variable {s t u : DataType} {a b : Nat} {ss ts : List DataType}

/-! ## Places -/

/-- The integers are at the bottom. -/
theorem isInteger_iff (h : t.rank? = some a) : t.isInteger = true ↔ a ≤ 3 := by
  cases t <;> cases h <;> decide

/-- The floats stand on the integers. -/
theorem isFloating_iff (h : t.rank? = some a) : t.isFloating = true ↔ 4 ≤ a ∧ a ≤ 5 := by
  cases t <;> cases h <;> decide

/-- The decimals are at the top. -/
theorem rank_le (h : t.rank? = some a) : a ≤ 6 := by
  cases t <;> cases h <;> decide

/-- Types at one place are the same. -/
theorem eq_of_rank? (hs : s.rank? = some a) (ht : t.rank? = some a) : s = t := by
  cases s <;> cases hs <;> cases t <;> first | rfl | cases ht

/-- A numeric type has a place in the tower. -/
theorem exists_rank? (h : t.isNumeric = true) : ∃ a, t.rank? = some a := by
  rw [isNumeric_iff_rank?] at h
  exact Option.isSome_iff_exists.mp h

/-- Within the tower a value passes for the types from its own place upwards. -/
theorem castableTo_iff_le (hs : s.rank? = some a) (ht : t.rank? = some b) :
    s.castableTo t = true ↔ a ≤ b := by
  -- Types are equal if they have the same place.
  have heq : s = t ↔ a = b := by
    constructor
    · rintro rfl
      exact Option.some.inj (hs.symm.trans ht)
    · rintro rfl
      exact eq_of_rank? hs ht
  have htop := rank_le hs
  simp only [castableTo, hs, ht, Bool.or_eq_true, beq_iff_eq, heq]
  -- The three cases are those of the type that is expected: integer, float and decimal.
  by_cases hint : t.isInteger = true
  · rw [if_pos hint]
    rw [isInteger_iff ht] at hint
    simp only [Bool.and_eq_true, decide_eq_true_eq, isInteger_iff hs]
    omega
  · rw [if_neg hint]
    rw [isInteger_iff ht] at hint
    by_cases hfloat : t.isFloating = true
    · rw [if_pos hfloat]
      rw [isFloating_iff ht] at hfloat
      simp only [Bool.or_eq_true, Bool.and_eq_true, decide_eq_true_eq, isInteger_iff hs,
        isFloating_iff hs]
      omega
    · rw [if_neg hfloat]
      rw [isFloating_iff ht] at hfloat
      simp only [or_true, true_iff]
      omega

/-! ## The order of the tower -/

/-- Both types are in the tower, and `s` is at the place of `t` or below. -/
def Below (s t : DataType) : Prop :=
  ∃ a b, s.rank? = some a ∧ t.rank? = some b ∧ a ≤ b

/-- A numeric type is below itself. -/
theorem Below.refl (h : t.isNumeric = true) : Below t t := by
  obtain ⟨a, ha⟩ := exists_rank? h
  exact ⟨a, a, ha, ha, Nat.le_refl a⟩

/-- What is below a type is numeric. -/
theorem Below.isNumeric (h : Below s t) : s.isNumeric = true := by
  obtain ⟨a, -, ha, -⟩ := h
  rw [isNumeric_iff_rank?, ha]
  rfl

/-- What is below a type is below those above it. -/
theorem Below.trans (hst : Below s t) (htu : Below t u) : Below s u := by
  obtain ⟨a, b, hs, ht, hab⟩ := hst
  obtain ⟨b', c, ht', hu, hbc⟩ := htu
  obtain rfl : b = b' := Option.some.inj (ht.symm.trans ht')
  exact ⟨a, c, hs, hu, Nat.le_trans hab hbc⟩

/-- Two types that are below each other are the same. -/
theorem Below.antisymm (hst : Below s t) (hts : Below t s) : s = t := by
  obtain ⟨a, b, hs, ht, hab⟩ := hst
  obtain ⟨b', a', ht', hs', hba⟩ := hts
  obtain rfl : b = b' := Option.some.inj (ht.symm.trans ht')
  obtain rfl : a = a' := Option.some.inj (hs.symm.trans hs')
  obtain rfl : a = b := Nat.le_antisymm hab hba
  exact eq_of_rank? hs ht

/-- A value of a type of the tower passes for the types that its own is below, and for no others. -/
theorem castableTo_iff_below (h : s.isNumeric = true) : s.castableTo t = true ↔ Below s t := by
  obtain ⟨a, hs⟩ := exists_rank? h
  constructor
  · intro hcast
    cases ht : t.rank? with
    | some b => exact ⟨a, b, hs, ht, (castableTo_iff_le hs ht).mp hcast⟩
    | none =>
      -- Outside of the tower a value passes for its own type alone.
      simp only [castableTo, hs, ht, Bool.or_false, beq_iff_eq] at hcast
      rw [hcast, ht] at hs
      cases hs
  · rintro ⟨a', b, hs', ht, hle⟩
    exact (castableTo_iff_le hs' ht).mpr hle

/-! ## The highest of some types -/

/-- The types are all in the tower, and `t` is the highest of them. -/
structure IsHighest (t : DataType) (ts : List DataType) : Prop where
  /-- It is one of them. -/
  mem : t ∈ ts
  /-- None of them is above it. -/
  below : ∀ s ∈ ts, Below s t

namespace IsHighest

/-- A numeric type is the highest of itself alone. -/
theorem singleton (h : t.isNumeric = true) : IsHighest t [t] where
  mem := List.mem_singleton_self t
  below s hs := by
    rw [List.mem_singleton.mp hs]
    exact .refl h

/-- The highest of some types is numeric. -/
theorem isNumeric (h : IsHighest t ts) : t.isNumeric = true :=
  (h.below t h.mem).isNumeric

/-- Of two lists the higher of their highest types is the highest. -/
theorem append (hs : IsHighest s ss) (ht : IsHighest t ts) :
    ∃ u, s.promote? t = some u ∧ IsHighest u (ss ++ ts) := by
  obtain ⟨a, ha⟩ := exists_rank? hs.isNumeric
  obtain ⟨b, hb⟩ := exists_rank? ht.isNumeric
  have hpromote : s.promote? t = some (if b ≤ a then s else t) := by
    rw [promote?, ha, hb]
  refine ⟨_, hpromote, ?_⟩
  by_cases hle : b ≤ a
  · rw [if_pos hle]
    refine ⟨List.mem_append_left _ hs.mem, List.forall_mem_append.mpr ⟨hs.below, ?_⟩⟩
    exact fun x hx => (ht.below x hx).trans ⟨b, a, hb, ha, hle⟩
  · rw [if_neg hle]
    refine ⟨List.mem_append_right _ ht.mem, List.forall_mem_append.mpr ⟨?_, ht.below⟩⟩
    exact fun x hx => (hs.below x hx).trans ⟨a, b, ha, hb, by omega⟩

/-- What is the highest of some types does not depend on their order, nor on how often one of them
occurs. -/
theorem unique (hs : IsHighest s ss) (ht : IsHighest t ts) (h : ∀ x, x ∈ ss ↔ x ∈ ts) : s = t :=
  (ht.below s ((h s).mp hs.mem)).antisymm (hs.below t ((h t).mpr ht.mem))

/-- The highest of some types passes for just those types that all of them pass for. -/
theorem castableTo_iff (h : IsHighest t ts) :
    t.castableTo u = true ↔ ∀ s ∈ ts, s.castableTo u = true := by
  constructor
  · intro hcast s hs
    have hbelow := h.below s hs
    rw [castableTo_iff_below h.isNumeric] at hcast
    exact (castableTo_iff_below hbelow.isNumeric).mpr (hbelow.trans hcast)
  · intro hall
    exact hall t h.mem

end IsHighest

/-! ## Integers -/

/-- The widest integer type holds all constants. -/
theorem holds_int64 (i : Int64) : int64.Holds i.toInt :=
  ⟨i.le_toInt, i.toInt_lt⟩

/-- The type of a constant holds it. -/
theorem holds_ofInt64 (i : Int64) : (ofInt64 i).Holds i.toInt := by
  unfold ofInt64
  split
  · assumption
  split
  · assumption
  split
  · assumption
  · exact holds_int64 i

/-- From one place to the next, integers get twice as wide. -/
theorem bits?_of_rank? (ht : t.isInteger = true) (h : t.rank? = some a) :
    t.bits? = some (8 * Nat.pow 2 a) := by
  cases t <;> cases ht <;> cases h <;> rfl

/-- An integer type has a place in the tower. -/
theorem exists_rank?_of_isInteger (h : t.isInteger = true) : ∃ a, t.rank? = some a :=
  exists_rank? (by rw [isNumeric, h, Bool.true_or, Bool.true_or])

/-- An integer type holds what a narrower one does. -/
theorem Holds.mono {i : Int} (h : s.Holds i) (hs : s.isInteger = true) (ht : t.isInteger = true)
    (hcast : s.castableTo t = true) : t.Holds i := by
  obtain ⟨a, ha⟩ := exists_rank?_of_isInteger hs
  obtain ⟨b, hb⟩ := exists_rank?_of_isInteger ht
  have hbits : Nat.pow 2 a ≤ Nat.pow 2 b :=
    Nat.pow_le_pow_right (by decide) ((castableTo_iff_le ha hb).mp hcast)
  have hrange : Nat.pow 2 (8 * Nat.pow 2 a - 1) ≤ Nat.pow 2 (8 * Nat.pow 2 b - 1) :=
    Nat.pow_le_pow_right (by decide) (by omega)
  simp only [Holds, bits?_of_rank? hs ha] at h
  simp only [Holds, bits?_of_rank? ht hb]
  omega

/-- A constant is of an integer type. -/
theorem isInteger_ofInt64 (i : Int64) : (ofInt64 i).isInteger = true := by
  unfold ofInt64
  repeat' split
  all_goals rfl

/-- The type of a constant is the narrowest one that holds it: it passes for those integer types
that hold the constant, and for no others. -/
theorem castableTo_ofInt64_iff (i : Int64) (ht : t.isInteger = true) :
    (ofInt64 i).castableTo t = true ↔ t.Holds i.toInt := by
  constructor
  · exact (holds_ofInt64 i).mono (isInteger_ofInt64 i) ht
  · intro hholds
    -- A type that holds the constant ends the search for the narrowest one at its own place.
    cases t <;> cases ht <;> unfold ofInt64 <;> repeat' split
    all_goals rfl

end UdfBridge.DataType
