import UdfBridge.Query.Table

/-!
# Compiling queries

A `Query` is a projection of one table with an optional condition. `Query.select` translates it to
a `SELECT`, and `Query.compile` writes that. Of several faults the first in this order counts: no
items, a condition that yields no truth value, an item that does not translate, from left to right,
and a condition that does not translate.
-/

namespace UdfBridge

/-- A projection of a table. -/
structure Query where
  /-- The table. -/
  table : Table
  /-- The expressions for the columns of the result, in order. -/
  items : List Expr
  /-- The condition that rows have to meet. -/
  filter? : Option Expr
deriving Repr, Inhabited

/-- The query for some items of a table, without a condition. -/
def Table.query (t : Table) (items : List Expr) : Query :=
  ⟨t, items, none⟩

namespace Query

/-- The query with one more condition; conditions are combined by conjunction, in order. -/
def filter (q : Query) (predicate : Expr) : Query :=
  match q.filter? with
  | some earlier => { q with filter? := some (.binary earlier .and predicate) }
  | none => { q with filter? := some predicate }

/-- Why the condition of a query cannot be one, judged by the type of the whole of it. -/
def filterError? (q : Query) : Option TranslationError :=
  match q.filter? with
  | some e => if e.type = .boolean then none else some (.filterNotBoolean e.type)
  | none => none

/-- The translation of the condition of a query. -/
def translateFilter (rules : TranslationTable) (q : Query) :
    Except TranslationError (Option SqlExpr) :=
  match q.filter? with
  | some e => some <$> e.translate rules .item
  | none => .ok none

/-- The `SELECT` that a query compiles to. -/
def select (rules : TranslationTable) (q : Query) : Except TranslationError Select :=
  if q.items.isEmpty then .error (.noItems q.table.name)
  else
    match q.filterError? with
    | some e => .error e
    | none => do
      let items ← Expr.translateAll rules .item q.items
      let filter? ← q.translateFilter rules
      return ⟨items, q.table.reference, filter?⟩

/-- The text of the `SELECT` that a query compiles to. -/
def compile (rules : TranslationTable) (q : Query) : Except TranslationError String :=
  Select.render <$> q.select rules

end Query

end UdfBridge
