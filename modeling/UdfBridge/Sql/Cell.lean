import UdfBridge.Decimal.Layout
import UdfBridge.Text.Hex

/-!
# The cells of a result

A cell holds one value of a result row. Integers of every width are 64 bits wide and floats are
doubles; a decimal keeps its exact value with the number of places it came with.
-/

namespace UdfBridge

/-- A value in a row of a result. -/
inductive Cell where
  | bool (value : Bool)
  | int (value : Int64)
  | real (value : Float)
  /-- The number `mantissa * 10 ^ -scale`. -/
  | decimal (mantissa : Int) (scale : Nat)
  | text (value : String)
  | blob (value : List UInt8)
  | null
deriving Repr, Inhabited

/-- The text that a cell is shown as. -/
def Cell.display : Cell → String
  | bool true => "true"
  | bool false => "false"
  | int value => toString value.toInt
  | real value => displayFloat value
  | decimal mantissa scale => Decimal.fixed mantissa scale
  | text value => value
  | blob value => .ofList ("\\x".toList ++ Text.toHex value)
  | null => "NULL"

end UdfBridge
