import UdfBridge.Text.Blank
import UdfBridge.Types.NameError

/-!
# The types of function bodies

The primitive types of Python that a function body takes and returns.
-/

namespace UdfBridge

/-- A primitive type of Python. -/
inductive HostType where
  | bool
  | int
  | float
  | decimal
  | bytes
  | str
deriving DecidableEq, Repr, Inhabited

namespace HostType

/-- The name of the type. -/
def name : HostType → String
  | bool => "bool"
  | int => "int"
  | float => "float"
  | decimal => "Decimal"
  | bytes => "bytes"
  | str => "str"

/-- The type that an annotation stands for. -/
def ofName? : String → Option HostType
  | "bool" => some bool
  | "int" => some int
  | "float" => some float
  | "Decimal" | "decimal.Decimal" => some decimal
  | "bytes" => some bytes
  | "str" => some str
  | _ => none

/-- Reads an annotation, with any white space around it. -/
def parse (s : String) : Except TypeNameError HostType :=
  match ofName? (Text.trim s) with
  | some t => .ok t
  | none => .error (.unknownHostType (Text.trim s))

/-- The name of a type stands for it. -/
@[simp] theorem ofName?_name (t : HostType) : ofName? t.name = some t := by
  cases t <;> rfl

end HostType

end UdfBridge
