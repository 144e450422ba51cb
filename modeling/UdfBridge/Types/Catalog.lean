import UdfBridge.Types.Abstract
import UdfBridge.Types.Host
import UdfBridge.Types.Sql

/-!
# The catalog of types

How the types of expressions, of the database and of function bodies correspond. The catalog is
fixed. `mappings` lists the six primitive types of function bodies with their counterparts, and on
those rows all four conversions agree with it (`mappings_agree`).
-/

namespace UdfBridge

/-- The database type of a value of type `t`. -/
def DataType.toSql : DataType → SqlType
  | boolean => .boolean
  | int8 | int16 => .smallint
  | int32 => .integer
  | int64 => .bigint
  | float32 => .real
  | float64 => .doublePrecision
  | decimal => .numeric
  | binary => .bytea
  | string => .varchar

/-- The type that a function body sees for a value of type `t`. -/
def DataType.toHost : DataType → HostType
  | boolean => .bool
  | int8 | int16 | int32 | int64 => .int
  | float32 | float64 => .float
  | decimal => .decimal
  | binary => .bytes
  | string => .str

/-- The type of an expression over database values of type `t`. -/
def SqlType.toData : SqlType → DataType
  | boolean => .boolean
  | smallint => .int16
  | integer => .int32
  | bigint => .int64
  | real => .float32
  | doublePrecision => .float64
  | numeric => .decimal
  | bytea => .binary
  | varchar => .string

/-- The type of an expression whose values a function body returns as `t`. -/
def HostType.toData : HostType → DataType
  | bool => .boolean
  | int => .int32
  | float => .float64
  | decimal => .decimal
  | bytes => .binary
  | str => .string

/-- A row of the catalog. -/
structure TypeMapping where
  /-- The type of function bodies. -/
  host : HostType
  /-- The type of expressions. -/
  data : DataType
  /-- The type of the database. -/
  sql : SqlType
deriving DecidableEq, Repr

/-- The primitive types of function bodies with their counterparts. -/
def mappings : List TypeMapping := [
  ⟨.bool, .boolean, .boolean⟩,
  ⟨.int, .int32, .integer⟩,
  ⟨.float, .float64, .doublePrecision⟩,
  ⟨.decimal, .decimal, .numeric⟩,
  ⟨.bytes, .binary, .bytea⟩,
  ⟨.str, .string, .varchar⟩]

/-- On the rows of the catalog every conversion gives what the row says. -/
theorem mappings_agree : ∀ m ∈ mappings,
    m.host.toData = m.data ∧ m.data.toSql = m.sql ∧ m.data.toHost = m.host ∧
      m.sql.toData = m.data := by
  decide

/-- A value of a type passes without a cast for one of the type that the database gives back. -/
theorem castableTo_toData_toSql (t : DataType) : t.castableTo t.toSql.toData = true := by
  cases t <;> decide

end UdfBridge
