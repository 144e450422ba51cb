import UdfBridge.Source.Parameter

/-!
# The kinds of parameters

Parameters get their kinds as the items of the list are read from left to right, and a slash changes
those of all parameters before it, variadic ones too. So the list has a variadic parameter exactly
if a variadic item stands behind its last slash (`exists_isVariadic_ofItems_iff`).
-/

namespace UdfBridge.Source

/-- Whether an item takes any number of arguments, as it is written. -/
def Item.isVariadic : Item → Bool
  | .starred _ | .doubleStarred _ => true
  | .slash | .star | .plain _ => false

/-- A variadic item stands behind the last slash. -/
def KeepsVariadic (items : List Item) : Prop :=
  ∃ earlier v later, items = earlier ++ v :: later ∧ v.isVariadic = true ∧ Item.slash ∉ later

/-- Among no items none is variadic. -/
theorem not_keepsVariadic_nil : ¬ KeepsVariadic [] := by
  rintro ⟨earlier, v, later, h, -⟩
  simp at h

/-- The first item counts if it is variadic and no slash follows; else the others do. -/
theorem keepsVariadic_cons {i : Item} {items : List Item} :
    KeepsVariadic (i :: items) ↔
      (i.isVariadic = true ∧ Item.slash ∉ items) ∨ KeepsVariadic items := by
  constructor
  · rintro ⟨earlier, v, later, h, hv, hlater⟩
    cases earlier with
    | nil =>
      obtain ⟨rfl, rfl⟩ := List.cons.inj h
      exact .inl ⟨hv, hlater⟩
    | cons j earlier =>
      obtain ⟨-, rfl⟩ := List.cons.inj h
      exact .inr ⟨earlier, v, later, rfl, hv, hlater⟩
  · rintro (⟨hi, hitems⟩ | ⟨earlier, v, later, rfl, hv, hlater⟩)
    · exact ⟨[], i, items, rfl, hi, hitems⟩
    · exact ⟨i :: earlier, v, later, rfl, hv, hlater⟩

namespace Parameter

/-- A variadic parameter comes from before, if no slash follows, or from an item. The induction is
on the items; the kind that plain parameters get is never variadic. -/
theorem exists_isVariadic_ofItemsAfter_iff {kind : ParameterKind} (hkind : kind.isVariadic = false)
    (earlier : List Parameter) (items : List Item) :
    (∃ p ∈ ofItemsAfter kind earlier items, p.kind.isVariadic = true) ↔
      ((∃ p ∈ earlier, p.kind.isVariadic = true) ∧ Item.slash ∉ items) ∨ KeepsVariadic items := by
  induction items generalizing kind earlier with
  | nil => simp [ofItemsAfter, not_keepsVariadic_nil]
  | cons i items ih =>
    rw [keepsVariadic_cons]
    cases i with
    | slash =>
      -- No parameter before a slash is left variadic.
      rw [ofItemsAfter, ih hkind]
      simp [ParameterKind.isVariadic, Item.isVariadic]
    | star =>
      -- A bare star makes no parameter, so it decides nothing.
      rw [ofItemsAfter, ih rfl]
      simp [Item.isVariadic]
    | plain p =>
      rw [ofItemsAfter, ih hkind]
      simp [Item.isVariadic, hkind]
    | starred p =>
      -- The new parameter is variadic, and stays so unless a slash comes later.
      have hnew : ∃ q ∈ earlier ++ [⟨p, .varPositional⟩], q.kind.isVariadic = true :=
        ⟨_, List.mem_append_right _ List.mem_cons_self, rfl⟩
      rw [ofItemsAfter, ih rfl]
      simp only [hnew, true_and, Item.isVariadic, List.mem_cons, reduceCtorEq, false_or]
      grind
    | doubleStarred p =>
      have hnew : ∃ q ∈ earlier ++ [⟨p, .varKeyword⟩], q.kind.isVariadic = true :=
        ⟨_, List.mem_append_right _ List.mem_cons_self, rfl⟩
      rw [ofItemsAfter, ih hkind]
      simp only [hnew, true_and, Item.isVariadic, List.mem_cons, reduceCtorEq, false_or]
      grind

/-- There is a variadic parameter exactly if a variadic item stands behind the last slash. -/
theorem exists_isVariadic_ofItems_iff (items : List Item) :
    (∃ p ∈ ofItems items, p.kind.isVariadic = true) ↔ KeepsVariadic items := by
  rw [ofItems, exists_isVariadic_ofItemsAfter_iff rfl]
  simp

end Parameter

end UdfBridge.Source
