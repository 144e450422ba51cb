import UdfBridge.Proofs.Types.Tower
import UdfBridge.Query.Expr

/-!
# The type of arithmetic

Arithmetic operators and aliases are put together from leaves, which are all other expressions. As
long as the leaves are numbers, the type of the whole is the highest of their types in the numeric
tower. So it takes neither the brackets nor the order of the leaves nor the operators to tell it, and
the whole passes for a type exactly if every leaf does (`Expr.arithmetic_type_isHighest`).
-/

namespace UdfBridge

/-- Whether the operator is one of arithmetic. -/
def Op.isArithmetic : Op → Bool
  | add | subtract | multiply | divide => true
  | equal | and => false

namespace Expr

/-- What arithmetic operators and aliases put an expression together from: constants, columns, calls,
comparisons and conjunctions. The last two yield truth values, so no number is one of them. -/
def leaves : Expr → List Expr
  | binary lhs op rhs => if op.isArithmetic then lhs.leaves ++ rhs.leaves else [binary lhs op rhs]
  | named expr _ => expr.leaves
  | constant value => [constant value]
  | column name type => [column name type]
  | call kind args => [call kind args]

/-- The types of the leaves, from left to right. -/
def leafTypes (e : Expr) : List DataType :=
  e.leaves.map type

/-- An arithmetic operator takes the higher type of its operands. -/
theorem type_binary_of_isArithmetic {lhs rhs : Expr} {op : Op} {t : DataType}
    (hop : op.isArithmetic = true) (h : lhs.type.promote? rhs.type = some t) :
    (binary lhs op rhs).type = t := by
  cases op <;> cases hop <;> rw [type, h, Option.getD_some]

/-- The type of arithmetic is the highest of the types of its leaves. The induction is on the
expression, up to its leaves. -/
theorem isHighest_type (e : Expr) (h : ∀ l ∈ e.leaves, l.type.isNumeric = true) :
    e.type.IsHighest e.leafTypes := by
  match e with
  | constant _ | column _ _ | call _ _ => exact .singleton (h _ (List.mem_singleton_self _))
  | named e name => exact isHighest_type e h
  | binary lhs op rhs =>
    by_cases hop : op.isArithmetic = true
    · rw [leaves, if_pos hop, List.forall_mem_append] at h
      -- The types of both sides are numbers, so they have a type to be promoted to.
      obtain ⟨t, hpromote, hhighest⟩ :=
        (isHighest_type lhs h.1).append (isHighest_type rhs h.2)
      rw [type_binary_of_isArithmetic hop hpromote, leafTypes, leaves, if_pos hop, List.map_append]
      exact hhighest
    · -- Any other operator makes a leaf of the whole.
      rw [leafTypes]
      rw [leaves, if_neg hop] at h ⊢
      exact .singleton (h _ (List.mem_singleton_self _))

/-- **The type of arithmetic is the least upper bound** of the types of its leaves. It is the highest
of them in the numeric tower; any other expression with leaves of these types has it too, however its
leaves are ordered, bracketed and combined; and the expression passes for a type exactly if all of
its leaves do. A constant integer, as a leaf, passes for the integer types that hold it. -/
theorem arithmetic_type_isHighest (e : Expr) (h : ∀ l ∈ e.leaves, l.type.isNumeric = true) :
    e.type.IsHighest e.leafTypes ∧
      (∀ e' : Expr, (∀ t, t ∈ e'.leafTypes ↔ t ∈ e.leafTypes) → e'.type = e.type) ∧
      (∀ t, e.type.castableTo t = true ↔ ∀ l ∈ e.leaves, l.type.castableTo t = true) ∧
      ∀ (i : Int64) (t : DataType), t.isInteger = true →
        ((constant (.int i)).type.castableTo t = true ↔ t.Holds i.toInt) := by
  have hhighest := isHighest_type e h
  refine ⟨hhighest, ?_, ?_, ?_⟩
  · intro e' hsame
    have h' : ∀ l ∈ e'.leaves, l.type.isNumeric = true := by
      -- Each leaf type of `e'` is one of `e`, so the leaves of `e'` are numbers too.
      intro l hl
      obtain ⟨m, hm, hmtype⟩ := List.mem_map.mp ((hsame l.type).mp (List.mem_map_of_mem hl))
      rw [← hmtype]
      exact h m hm
    exact (isHighest_type e' h').unique hhighest hsame
  · intro t
    rw [hhighest.castableTo_iff, leafTypes, List.forall_mem_map]
  · intro i t ht
    exact DataType.castableTo_ofInt64_iff i ht

/-- A call that yields an integer, of a text that is no leaf of what the call stands in. -/
def counted : Expr := .call ⟨"n_0", ⟨"n", [⟨"v0", .string⟩], .int64, none⟩⟩ [.column "c" .string]

/-- A float, the call, an integer with a name, and a constant of two bytes. -/
def mixed : Expr :=
  .binary (.binary (.column "x" .float32) .divide counted) .subtract
    (.named (.binary (.column "a" .int32) .multiply (.constant (.int 1000))) "p")

/-- The leaves of the same types in another order and twice, with other brackets and operators. -/
def remixed : Expr :=
  .named (.binary (.constant (.int (-200))) .add
    (.binary counted .add (.binary (.column "x" .float32) .multiply
      (.binary (.column "a" .int32) .subtract (.column "y" .float32))))) "q"

/-- Both have the type of the float, which passes for a wider float but for no integer, as the float
does not; and the constant passes for integers of two bytes but not of one. -/
theorem arithmetic_type_isHighest_of_mixed :
    mixed.leafTypes = [.float32, .int64, .int32, .int16] ∧ mixed.type = .float32 ∧
      remixed.type = .float32 ∧ mixed.type.castableTo .float64 = true ∧
      mixed.type.castableTo .int64 = false ∧
      (constant (.int 1000)).type.castableTo .int16 = true ∧
      (constant (.int 1000)).type.castableTo .int8 = false := by
  have hleaves : ∀ l ∈ mixed.leaves, l.type.isNumeric = true := by decide
  obtain ⟨-, hremixed, hcast, hconstant⟩ := arithmetic_type_isHighest mixed hleaves
  have htype : mixed.type = .float32 := by decide
  refine ⟨by decide, htype, ?_, (hcast .float64).mpr (by decide), ?_,
    (hconstant 1000 .int16 rfl).mpr (by decide), ?_⟩
  · rw [hremixed remixed (by intro t; cases t <;> decide), htype]
  · rw [Bool.eq_false_iff, ne_eq, hcast]
    decide
  · rw [Bool.eq_false_iff, ne_eq, hconstant 1000 .int8 rfl]
    decide

end Expr

end UdfBridge
