import UdfBridge.Sql.Quoting

/-!
# SQL expressions and queries

The target of the translation: expressions of SQL as trees, a `SELECT` over one table, and the text
of each. Operators stand in parentheses, so the text needs no precedence.
-/

namespace UdfBridge

/-- The name of a function or of a table, with its schema where that is given. -/
structure QualifiedName where
  /-- The schema. -/
  schema? : Option String
  /-- The name within the schema. -/
  name : String
deriving DecidableEq, Repr, Inhabited

/-- The text of a qualified name. -/
def QualifiedName.render (n : QualifiedName) : String :=
  match n.schema? with
  | some schema => Sql.quoteIdentifier schema ++ "." ++ Sql.quoteIdentifier n.name
  | none => Sql.quoteIdentifier n.name

/-- An expression of SQL. -/
inductive SqlExpr where
  /-- A literal, as it is written. -/
  | literal (text : String)
  /-- A column of the table. -/
  | column (name : String)
  /-- An operator between two operands. -/
  | binary (lhs : SqlExpr) (op : String) (rhs : SqlExpr)
  /-- A call of a function. -/
  | call (function : QualifiedName) (args : List SqlExpr)
  /-- An expression with a name for its column of the result. -/
  | label (expr : SqlExpr) (name : String)
deriving Repr, Inhabited

namespace SqlExpr

/-- A text as an expression. -/
def ofText (s : String) : SqlExpr := literal (Sql.textLiteral s)

/-- Some bytes as an expression. -/
def ofBytes (bs : List UInt8) : SqlExpr := literal (Sql.bytesLiteral bs)

mutual

/-- The text of an expression. -/
def render : SqlExpr → String
  | literal text => text
  | column name => Sql.quoteIdentifier name
  | binary lhs op rhs => "(" ++ lhs.render ++ " " ++ op ++ " " ++ rhs.render ++ ")"
  | call function args => function.render ++ "(" ++ ", ".intercalate (renderAll args) ++ ")"
  | label expr name => expr.render ++ " AS " ++ Sql.quoteIdentifier name

/-- The texts of some expressions. -/
def renderAll : List SqlExpr → List String
  | [] => []
  | e :: es => e.render :: renderAll es

end

/-- The texts of some expressions are those of each. -/
theorem renderAll_eq_map (es : List SqlExpr) : renderAll es = es.map render := by
  induction es with
  | nil => rfl
  | cons e es ih => simp [renderAll, ih]

end SqlExpr

/-- A query of one table. -/
structure Select where
  /-- The columns of the result. -/
  items : List SqlExpr
  /-- The table. -/
  source : QualifiedName
  /-- The condition that rows have to meet. -/
  filter? : Option SqlExpr
deriving Repr, Inhabited

/-- The text of a query. -/
def Select.render (q : Select) : String :=
  let head :=
    "SELECT " ++ ", ".intercalate (q.items.map SqlExpr.render) ++ " FROM " ++ q.source.render
  match q.filter? with
  | some filter => head ++ " WHERE " ++ filter.render
  | none => head

end UdfBridge
