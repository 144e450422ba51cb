import UdfBridge.Decimal.Layout
import UdfBridge.Sql.Expr
import UdfBridge.Types.Abstract

/-!
# Constants

The constants of expressions: their types, the text they are shown as, their equality, and their
literals in SQL.
-/

namespace UdfBridge

/-- A constant. -/
inductive Constant where
  | int (value : Int64)
  | string (value : String)
  | real (value : Float)
  | bool (value : Bool)
  | bytes (value : List UInt8)
deriving Repr, Inhabited

namespace Constant

/-- The type of a constant. An integer has the narrowest type that holds it. -/
def type : Constant → DataType
  | int value => .ofInt64 value
  | string _ => .string
  | real _ => .float64
  | bool _ => .boolean
  | bytes _ => .binary

/-- The text that a constant is shown as. -/
def display : Constant → String
  | int value => toString value.toInt
  | string value => "'" ++ value ++ "'"
  | real value => displayFloat value
  | bool true => "TRUE"
  | bool false => "FALSE"
  | bytes value => "<" ++ toString value.length ++ " bytes>"

/-- Whether two constants are equal; floats are compared as numbers. -/
def same : Constant → Constant → Bool
  | int a, int b => a == b
  | string a, string b => a == b
  | real a, real b => a == b
  | bool a, bool b => a == b
  | bytes a, bytes b => a == b
  | _, _ => false

/-- How floats are written in SQL: always with a point or an exponent, so that they stay floats. -/
def floatLiteral : Decimal.Layout :=
  { wholeMark := ['.', '0'], positionalRange? := some (-4, 16)
    nan := "'NaN'::float8", infinity := "'Infinity'::float8"
    negativeInfinity := "'-Infinity'::float8" }

/-- The literal of a constant. -/
def translate : Constant → SqlExpr
  | int value => .literal (toString value.toInt)
  | string value => .ofText value
  | real value => .literal (floatLiteral.write (.ofFloat value))
  | bool true => .literal "TRUE"
  | bool false => .literal "FALSE"
  | bytes value => .ofBytes value

end Constant

end UdfBridge
