import UdfBridge.Text.Lowercase
import UdfBridge.Types.NameError

/-!
# The types of expressions

`DataType` has the types that an expression can produce, which belong neither to the database nor
to the language of function bodies. Integer widths are part of the type. The numeric types form a
tower, ranked by `rank?`: `promote` takes the higher of two, and `castableTo` says where a value
passes without a cast.
-/

namespace UdfBridge

/-- The type of the values of an expression. -/
inductive DataType where
  | boolean
  | int8
  | int16
  | int32
  | int64
  | float32
  | float64
  | decimal
  | binary
  | string
deriving DecidableEq, Repr, Inhabited

namespace DataType

/-- The name of the type. -/
def name : DataType → String
  | boolean => "boolean"
  | int8 => "int8"
  | int16 => "int16"
  | int32 => "int32"
  | int64 => "int64"
  | float32 => "float32"
  | float64 => "float64"
  | decimal => "decimal"
  | binary => "binary"
  | string => "string"

/-- The type that a lowercase name or alias stands for. -/
def ofName? : String → Option DataType
  | "boolean" | "bool" => some boolean
  | "int8" => some int8
  | "int16" => some int16
  | "int32" | "int" => some int32
  | "int64" => some int64
  | "float32" => some float32
  | "float64" | "float" | "double" => some float64
  | "decimal" => some decimal
  | "binary" | "bytes" => some binary
  | "string" | "str" => some string
  | _ => none

/-- Reads a type name in any case. -/
def parse (s : String) : Except TypeNameError DataType :=
  match ofName? (Text.lowercase s) with
  | some t => .ok t
  | none => .error (.unknownDataType (Text.lowercase s))

/-- The name of a type stands for it. -/
@[simp] theorem ofName?_name (t : DataType) : ofName? t.name = some t := by
  cases t <;> rfl

/-- Whether the type is one of the integers. -/
def isInteger : DataType → Bool
  | int8 | int16 | int32 | int64 => true
  | _ => false

/-- Whether the type is one of the binary floating-point numbers. -/
def isFloating : DataType → Bool
  | float32 | float64 => true
  | _ => false

/-- Whether the type is in the numeric tower. -/
def isNumeric (t : DataType) : Bool :=
  t.isInteger || t.isFloating || t == decimal

/-- The place of a type in the numeric tower, from the bottom. -/
def rank? : DataType → Option Nat
  | int8 => some 0
  | int16 => some 1
  | int32 => some 2
  | int64 => some 3
  | float32 => some 4
  | float64 => some 5
  | decimal => some 6
  | boolean | binary | string => none

/-- Whether a value of type `s` passes where `t` is expected: integers widen, integers and floats
go to wider floats and to decimals, and nothing narrows. Every integer goes to every float. -/
def castableTo (s t : DataType) : Bool :=
  s == t ||
    match s.rank?, t.rank? with
    | some a, some b =>
      if t.isInteger then s.isInteger && a < b
      else if t.isFloating then s.isInteger || (s.isFloating && a < b)
      else true
    | _, _ => false

/-- The type of an arithmetic result over `s` and `t`, which is the higher of the two in the
numeric tower, if both are in it. -/
def promote? (s t : DataType) : Option DataType :=
  match s.rank?, t.rank? with
  | some a, some b => some (if b ≤ a then s else t)
  | _, _ => none

/-- A type is numeric exactly if it has a rank. -/
theorem isNumeric_iff_rank? (t : DataType) : t.isNumeric = t.rank?.isSome := by
  cases t <;> rfl

/-- The number of bits of an integer type. -/
def bits? : DataType → Option Nat
  | int8 => some 8
  | int16 => some 16
  | int32 => some 32
  | int64 => some 64
  | _ => none

/-- Whether the integer type `t` has the value `i`. -/
def Holds (t : DataType) (i : Int) : Prop :=
  match t.bits? with
  | some n => -Nat.pow 2 (n - 1) ≤ i ∧ i < Nat.pow 2 (n - 1)
  | none => False

instance (t : DataType) (i : Int) : Decidable (t.Holds i) := by
  unfold Holds
  split <;> infer_instance

/-- The narrowest integer type that has the value `i`. -/
def ofInt64 (i : Int64) : DataType :=
  if int8.Holds i.toInt then int8
  else if int16.Holds i.toInt then int16
  else if int32.Holds i.toInt then int32
  else int64

end DataType

end UdfBridge
