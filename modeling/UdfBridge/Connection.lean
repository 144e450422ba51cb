import UdfBridge.Sql.Cell

/-!
# Connections

What the library needs of a database session: to execute a statement and to run a query. A
connection is a value, and each operation gives its answer with the connection as it then is.
-/

namespace UdfBridge

/-- A failure that the database reports, with its SQLSTATE code where it gave one. -/
structure ConnectionError where
  /-- The SQLSTATE code. -/
  code? : Option String
  /-- The text of the failure. -/
  description : String
deriving DecidableEq, Repr, Inhabited

/-- The text of the error. -/
def ConnectionError.message (e : ConnectionError) : String :=
  match e.code? with
  | some code => e.description ++ " (SQLSTATE " ++ code ++ ")"
  | none => e.description

/-- A session with a database, in the state `σ`. -/
class Connection (σ : Type) where
  /-- Executes a statement and gives the number of rows it changed. -/
  execute : String → σ → Except ConnectionError Nat × σ
  /-- Runs a query and gives its rows. -/
  query : String → σ → Except ConnectionError (List (List Cell)) × σ

end UdfBridge
