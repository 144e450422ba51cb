import UdfBridge.Proofs.Answer
import UdfBridge.Proofs.Query.Subexpr

/-!
# What translations succeed, and with what

One equation for each form of an expression says when its translation succeeds and what it gives:
the parts of an operator and the arguments of a registered call are translated as operands, and an
alias gives a name only to a whole item. So an item is translated as an operand is, and gets a name
if it is an alias (`Expr.translate_item`).
-/

namespace UdfBridge

namespace Expr

variable {rules : TranslationTable} {place : Place} {x : SqlExpr} {xs : List SqlExpr}

/-- A constant translates to its literal. -/
theorem translate_constant (value : Constant) :
    (constant value).translate rules place = .ok value.translate := by
  cases place <;> rw [translate, translateBy]

/-- A column translates to its name. -/
theorem translate_column (name : String) (type : DataType) :
    (column name type).translate rules place = .ok (.column name) := by
  cases place <;> rw [translate, translateBy]

/-- An operator translates its sides as operands, the left one first. -/
theorem translate_binary (lhs : Expr) (op : Op) (rhs : Expr) :
    (binary lhs op rhs).translate rules place = (do
      let l ← lhs.translate rules .operand
      let r ← rhs.translate rules .operand
      return .binary l op.symbol r) := by
  cases place <;> rw [translate, translateBy]

/-- An operator translates if its sides do. -/
theorem translate_binary_eq_ok {lhs rhs : Expr} {op : Op} :
    (binary lhs op rhs).translate rules place = .ok x ↔
      ∃ l r, lhs.translate rules .operand = .ok l ∧ rhs.translate rules .operand = .ok r ∧
        .binary l op.symbol r = x := by
  rw [translate_binary]
  simp only [bind_eq_ok, pure, Except.pure, Except.ok.injEq]
  constructor
  · rintro ⟨l, hl, r, hr, hx⟩
    exact ⟨l, r, hl, hr, hx⟩
  · rintro ⟨l, r, hl, hr, hx⟩
    exact ⟨l, hl, r, hr, hx⟩

/-- A call whose kind has a rule that calls a function becomes a call of that function. -/
theorem translate_call {k : NodeKind} {function : QualifiedName} {inner : Place}
    (args : List Expr) (hrule : rules[k.id]? = some (.call function inner)) :
    (call k args).translate rules place = (do
      return .call function (← translateAll rules inner args)) := by
  cases place <;> rw [translate, translateBy] <;> simp only [hrule] <;> rfl

/-- A call whose kind has no rule does not translate. -/
theorem translate_call_of_none {k : NodeKind} (args : List Expr) (hrule : rules[k.id]? = none) :
    (call k args).translate rules place = .error (.missingRule k.id) := by
  cases place <;> rw [translate, translateBy] <;> simp only [hrule]

/-- A registered call becomes a call of its function with the arguments as operands. -/
theorem translate_call_eq_ok {k : NodeKind} {args : List Expr}
    (hrule : rules[k.id]? = some (Registry.callRule k)) :
    (call k args).translate rules place = .ok x ↔
      ∃ xs, translateAll rules .operand args = .ok xs ∧ .call k.signature.reference xs = x := by
  rw [translate_call args hrule]
  simp only [bind_eq_ok, pure, Except.pure, Except.ok.injEq]

/-- Inside an expression an alias translates as what it names. -/
theorem translate_named_operand (e : Expr) (name : String) :
    (named e name).translate rules .operand = e.translate rules .operand := by
  rw [translate, translateBy]

/-- An alias that is an item gives what it names a label. -/
theorem translate_named_item (e : Expr) (name : String) :
    (named e name).translate rules .item = (do
      return .label (← e.translate rules .operand) name) := by
  rw [translate, translateBy]

/-- An alias that is an item translates if what it names does. -/
theorem translate_named_item_eq_ok {e : Expr} {name : String} :
    (named e name).translate rules .item = .ok x ↔
      ∃ y, e.translate rules .operand = .ok y ∧ .label y name = x := by
  rw [translate_named_item]
  simp only [bind_eq_ok, pure, Except.pure, Except.ok.injEq]

/-- No expressions have no translations. -/
theorem translateAll_nil : translateAll rules place [] = .ok [] := by
  rw [translateAll, translateAllBy]

/-- Expressions are translated from left to right. -/
theorem translateAll_cons (e : Expr) (es : List Expr) : translateAll rules place (e :: es) = (do
    let y ← e.translate rules place
    let ys ← translateAll rules place es
    return y :: ys) := by
  rw [translateAll, translateAllBy]
  rfl

/-- Expressions translate if each of them does. -/
theorem translateAll_cons_eq_ok {e : Expr} {es : List Expr} :
    translateAll rules place (e :: es) = .ok xs ↔
      ∃ y ys, e.translate rules place = .ok y ∧ translateAll rules place es = .ok ys ∧
        y :: ys = xs := by
  rw [translateAll_cons]
  simp only [bind_eq_ok, pure, Except.pure, Except.ok.injEq]
  constructor
  · rintro ⟨y, hy, ys, hys, hx⟩
    exact ⟨y, ys, hy, hys, hx⟩
  · rintro ⟨y, ys, hy, hys, hx⟩
    exact ⟨y, hy, ys, hys, hx⟩

/-- The place matters only for an alias. -/
theorem translate_item_eq_operand {e : Expr} (h : ∀ e' name, e ≠ named e' name) :
    e.translate rules .item = e.translate rules .operand := by
  cases e with
  | named e' name => exact absurd rfl (h e' name)
  | constant | column | binary | call => rw [translate, translateBy, translateBy]

/-- The name of an expression that is an alias. -/
def name? : Expr → Option String
  | named _ name => some name
  | constant _ | column _ _ | binary _ _ _ | call _ _ => none

/-- An item translates as an operand does, under its name if it is an alias. -/
theorem translate_item (e : Expr) : e.translate rules .item =
    (fun x => e.name?.elim x x.label) <$> e.translate rules .operand := by
  cases e with
  | named e name =>
    rw [translate_named_item, translate_named_operand]
    cases e.translate rules .operand <;> rfl
  | constant | column | binary | call =>
    rw [translate_item_eq_operand (by simp)]
    exact (id_map _).symm

end Expr

end UdfBridge
