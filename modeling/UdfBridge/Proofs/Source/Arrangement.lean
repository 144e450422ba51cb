import UdfBridge.Proofs.Source.Kinds

/-!
# Parameter lists in order

The grammar takes the items of a parameter list in any order, a function only in one. An
`Arrangement` is a list in this order, so lists out of it cannot be written down: first the
positional-only parameters and their slash, then the plain ones, then a star with what stands behind
it, and last the parameter for the remaining keyword arguments.

In such a list the place of a parameter says how it takes its argument, and `ofItems_items` states
that reading the items gives each parameter this kind.
-/

namespace UdfBridge.Source

/-- What a parameter list has from its star on. -/
inductive StarPart where
  /-- There is no star. -/
  | absent
  /-- A star by itself, which needs a parameter behind it. -/
  | bare (first : WrittenParameter) (others : List WrittenParameter)
  /-- A parameter for the remaining positional arguments, and the parameters behind it. -/
  | named (p : WrittenParameter) (others : List WrittenParameter)
deriving DecidableEq, Repr, Inhabited

/-- A parameter list in order. -/
structure Arrangement where
  /-- The parameters before the slash, which only stands behind a parameter. -/
  positionalOnly : List WrittenParameter
  /-- The parameters between the slash and the star. -/
  flexible : List WrittenParameter
  /-- The star and what stands behind it. -/
  starPart : StarPart
  /-- The parameter for the remaining keyword arguments. -/
  last? : Option WrittenParameter
deriving DecidableEq, Repr, Inhabited

/-- The parameter that takes its argument in the given way. -/
def Parameter.ofKind (kind : ParameterKind) (p : WrittenParameter) : Parameter :=
  ⟨p, kind⟩

/-- The items from the star on. -/
def StarPart.items : StarPart → List Item
  | absent => []
  | bare first others => .star :: (first :: others).map .plain
  | named p others => .starred p :: others.map .plain

/-- The parameters from the star on. -/
def StarPart.parameters : StarPart → List Parameter
  | absent => []
  | bare first others => (first :: others).map (.ofKind .keywordOnly)
  | named p others => .ofKind .varPositional p :: others.map (.ofKind .keywordOnly)

namespace Arrangement

/-- The positional-only parameters with their slash. -/
def slashItems (a : Arrangement) : List Item :=
  if a.positionalOnly = [] then [] else a.positionalOnly.map .plain ++ [.slash]

/-- The items of the list. -/
def items (a : Arrangement) : List Item :=
  a.slashItems ++ (a.flexible.map .plain ++
    (a.starPart.items ++ a.last?.toList.map .doubleStarred))

/-- The parameters that take arguments by position. -/
def positional (a : Arrangement) : List Parameter :=
  a.positionalOnly.map (.ofKind .positionalOnly) ++ a.flexible.map (.ofKind .positionalOrKeyword)

/-- The parameters of the list, each with the kind that its place gives it. -/
def parameters (a : Arrangement) : List Parameter :=
  a.positional ++ (a.starPart.parameters ++ a.last?.toList.map (.ofKind .varKeyword))

end Arrangement

namespace Parameter

variable {kind : ParameterKind} {earlier : List Parameter} {items : List Item}

/-- A run of plain parameters is read as one. -/
theorem ofItemsAfter_plain_append (ps : List WrittenParameter) :
    ofItemsAfter kind earlier (ps.map .plain ++ items) =
      ofItemsAfter kind (earlier ++ ps.map (.ofKind kind)) items := by
  induction ps generalizing earlier with
  | nil => simp
  | cons p ps ih =>
    rw [List.map_cons, List.cons_append, ofItemsAfter, ih, List.map_cons, List.append_assoc]
    rfl

/-- What stands before a slash is positional-only. -/
theorem ofItemsAfter_slashItems (a : Arrangement) :
    ofItemsAfter .positionalOrKeyword [] (a.slashItems ++ items) =
      ofItemsAfter .positionalOrKeyword (a.positionalOnly.map (.ofKind .positionalOnly)) items := by
  unfold Arrangement.slashItems
  split
  · rename_i hnil
    rw [hnil]
    rfl
  · -- Behind the slash the plain parameters before it get another kind.
    rw [List.append_assoc, ofItemsAfter_plain_append, List.singleton_append, ofItemsAfter,
      List.nil_append, List.map_map]
    rfl

/-- At the end of the list there is at most the parameter for the remaining keyword arguments. -/
theorem ofItemsAfter_last (last? : Option WrittenParameter) :
    ofItemsAfter kind earlier (last?.toList.map .doubleStarred) =
      earlier ++ last?.toList.map (.ofKind .varKeyword) := by
  cases last? with
  | none => exact (List.append_nil _).symm
  | some p => rfl

/-- What stands behind a star is keyword-only. -/
theorem ofItemsAfter_starPart (part : StarPart) (last? : Option WrittenParameter) :
    ofItemsAfter kind earlier (part.items ++ last?.toList.map .doubleStarred) =
      earlier ++ (part.parameters ++ last?.toList.map (.ofKind .varKeyword)) := by
  cases part with
  | absent =>
    rw [StarPart.items, StarPart.parameters, List.nil_append, List.nil_append, ofItemsAfter_last]
  | bare first others =>
    rw [StarPart.items, StarPart.parameters, List.cons_append, ofItemsAfter,
      ofItemsAfter_plain_append, ofItemsAfter_last, List.append_assoc]
  | named p others =>
    rw [StarPart.items, StarPart.parameters, List.cons_append, ofItemsAfter,
      ofItemsAfter_plain_append, ofItemsAfter_last]
    simp [Parameter.ofKind]

/-- Reading the items of a list in order gives each parameter the kind of its place. -/
theorem ofItems_items (a : Arrangement) : ofItems a.items = a.parameters := by
  rw [ofItems, Arrangement.items, ofItemsAfter_slashItems, ofItemsAfter_plain_append,
    ofItemsAfter_starPart]
  rfl

end Parameter

namespace Arrangement

variable {a : Arrangement}

/-- Without variadic items, the parameters that take no argument by position are keyword-only. -/
theorem exists_parameters_eq (h : ∀ i ∈ a.items, i.isVariadic = false) :
    ∃ ps : List WrittenParameter, a.parameters = a.positional ++ ps.map (.ofKind .keywordOnly) := by
  -- A parameter for the remaining arguments of either kind would be a variadic item.
  have hlast : a.last? = none := by
    cases hlast : a.last? with
    | none => rfl
    | some p =>
      have hmem : Item.doubleStarred p ∈ a.items := by simp [items, hlast]
      simpa [Item.isVariadic] using h _ hmem
  cases hpart : a.starPart with
  | absent => exact ⟨[], by simp [parameters, hpart, hlast, StarPart.parameters]⟩
  | bare first others =>
    exact ⟨first :: others, by simp [parameters, hpart, hlast, StarPart.parameters]⟩
  | named p others =>
    have hmem : Item.starred p ∈ a.items := by simp [items, hpart, StarPart.items]
    simpa [Item.isVariadic] using h _ hmem

/-- A parameter that takes an argument by position is not keyword-only. -/
theorem kind_of_mem_positional {p : Parameter} (h : p ∈ a.positional) : p.kind ≠ .keywordOnly := by
  rcases List.mem_append.mp h with h | h
  · obtain ⟨w, -, rfl⟩ := List.mem_map.mp h
    simp [Parameter.ofKind]
  · obtain ⟨w, -, rfl⟩ := List.mem_map.mp h
    simp [Parameter.ofKind]

end Arrangement

end UdfBridge.Source
