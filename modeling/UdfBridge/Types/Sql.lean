import UdfBridge.Text.Blank
import UdfBridge.Text.Lowercase
import UdfBridge.Types.NameError

/-!
# The types of the database

The database types that values of function bodies go to and come from. A type has one name that it
is written by and further names that it is read from; there is no one-byte integer.
-/

namespace UdfBridge

/-- A type of the database. -/
inductive SqlType where
  | boolean
  | smallint
  | integer
  | bigint
  | real
  | doublePrecision
  | numeric
  | bytea
  | varchar
deriving DecidableEq, Repr, Inhabited

namespace SqlType

/-- The name that the type is written by. -/
def name : SqlType → String
  | boolean => "BOOLEAN"
  | smallint => "SMALLINT"
  | integer => "INTEGER"
  | bigint => "BIGINT"
  | real => "REAL"
  | doublePrecision => "DOUBLE PRECISION"
  | numeric => "NUMERIC"
  | bytea => "BYTEA"
  | varchar => "VARCHAR"

/-- The type that a lowercase name or alias stands for. -/
def ofName? : String → Option SqlType
  | "boolean" | "bool" => some boolean
  | "smallint" | "int2" => some smallint
  | "integer" | "int" | "int4" => some integer
  | "bigint" | "int8" => some bigint
  | "real" | "float4" => some real
  | "double precision" | "float8" => some doublePrecision
  | "numeric" | "decimal" => some numeric
  | "bytea" => some bytea
  | "varchar" | "character varying" | "text" | "name" => some varchar
  | _ => none

/-- A type name as it is looked up: its words with one blank between them, in lower case. -/
def normalize (s : String) : String :=
  Text.lowercase (" ".intercalate (Text.words s))

/-- Reads a type name in any case and with any white space around and between its words. -/
def parse (s : String) : Except TypeNameError SqlType :=
  match ofName? (normalize s) with
  | some t => .ok t
  | none => .error (.unknownSqlType (normalize s))

end SqlType

end UdfBridge
