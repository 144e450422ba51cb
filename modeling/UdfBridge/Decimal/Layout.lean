import UdfBridge.Decimal.Shortest

/-!
# Writing numbers

A number is written positionally (`0.05`, `1200`) or with an exponent (`1.2e20`). `Layout` holds
what differs between the places that numbers are written in: the range of the positional form,
the mark of a whole number, and the texts of the values that are no finite number.
-/

namespace UdfBridge

namespace Decimal

/-- The digits `ds` with a point before the last `places` of them, and at least one digit before
the point. -/
def withPoint (ds : List Char) (places : Nat) : List Char :=
  if places = 0 then ds
  else
    let padded := List.replicate (places + 1 - ds.length) '0' ++ ds
    let whole := padded.length - places
    padded.take whole ++ '.' :: padded.drop whole

/-- The text of an integer counted in units of `10 ^ -places`, with exactly `places` digits after
the point. -/
def fixed (n : Int) (places : Nat) : String :=
  let body := withPoint (Nat.toDigits 10 n.natAbs) places
  .ofList (if n < 0 then '-' :: body else body)

/-- How numbers are written. -/
structure Layout where
  /-- What follows a whole number in positional form. -/
  wholeMark : List Char
  /-- The powers of ten of the first digit for which the form is positional, the second excluded;
  without them it always is. -/
  positionalRange? : Option (Int × Int)
  /-- The text of a value that is no number. -/
  nan : String
  /-- The text of positive infinity. -/
  infinity : String
  /-- The text of negative infinity. -/
  negativeInfinity : String

namespace Layout

/-- The number in positional form. -/
def positional (l : Layout) (d : Decimal) : List Char :=
  let ds := Nat.toDigits 10 d.coefficient
  if 0 ≤ d.exponent then ds ++ List.replicate d.exponent.toNat '0' ++ l.wholeMark
  else withPoint ds (-d.exponent).toNat

/-- The power of ten of the first digit. -/
def leading (d : Decimal) : Int :=
  d.exponent + numDigits d.coefficient - 1

/-- The number with one digit before the point, and an exponent. -/
def scientific (d : Decimal) : List Char :=
  let exponent := 'e' :: (toString (leading d)).toList
  match Nat.toDigits 10 d.coefficient with
  | first :: second :: rest => first :: '.' :: second :: rest ++ exponent
  | ds => ds ++ exponent

/-- The text of a number without its sign. -/
def digits (l : Layout) (d : Decimal) : List Char :=
  match l.positionalRange? with
  | none => l.positional d
  | some (low, high) =>
    if d.coefficient = 0 ∨ (low ≤ leading d ∧ leading d < high) then l.positional d
    else scientific d

/-- The text of a binary number. Zero keeps its sign. -/
def write (l : Layout) : Binary64 → String
  | .nan => l.nan
  | .infinity false => l.infinity
  | .infinity true => l.negativeInfinity
  | .finite negative m q =>
    let body := l.digits (shortest m q)
    .ofList (if negative then '-' :: body else body)

end Layout

/-- Values are shown in positional form, and whole numbers without a point. -/
def shown : Layout :=
  { wholeMark := [], positionalRange? := none
    nan := "NaN", infinity := "inf", negativeInfinity := "-inf" }

end Decimal

/-- The text that a number is shown as. -/
def displayFloat (x : Float) : String :=
  Decimal.shown.write (.ofFloat x)

end UdfBridge
