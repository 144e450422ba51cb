import UdfBridge.Query.Translation

/-!
# Tables

A table with known column types, from which typed column expressions are taken.
-/

namespace UdfBridge

/-- A table with the types of its columns. -/
structure Table where
  /-- The schema of the table. -/
  schema? : Option String
  /-- The name of the table. -/
  name : String
  /-- The columns, in order, with their types. -/
  columns : List (String × DataType)
deriving DecidableEq, Repr, Inhabited

namespace Table

/-- The column of a name: the first one, where several have it. -/
def column (t : Table) (name : String) : Except TranslationError Expr :=
  match t.columns.find? fun (n, _) => n == name with
  | some (n, type) => .ok (.column n type)
  | none => .error (.noColumn t.name name)

/-- All columns, in order. -/
def allColumns (t : Table) : List Expr :=
  t.columns.map fun (n, type) => .column n type

/-- The name by which statements refer to the table. -/
def reference (t : Table) : QualifiedName :=
  ⟨t.schema?, t.name⟩

end Table

end UdfBridge
