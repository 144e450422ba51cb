/-!
# Binary floating-point numbers

A finite `Float` is a sign and a natural number times a power of two. `Binary64.ofFloat` takes
the 64 bits apart into these, so that what follows is exact arithmetic.
-/

namespace UdfBridge

/-- A double-precision number: a sign and `significand * 2 ^ exponent`, or one of the three values
that are no number of this form. -/
inductive Binary64 where
  | nan
  | infinity (negative : Bool)
  | finite (negative : Bool) (significand : Nat) (exponent : Int)
deriving DecidableEq, Repr, Inhabited

namespace Binary64

/-- The exponent of the smallest numbers, whose significands are below `minNormal`. -/
def minExponent : Int := -1074

/-- The least significand of a number above the smallest ones. -/
def minNormal : Nat := 0x10000000000000

/-- The number that 64 bits stand for: a sign bit, 11 bits of exponent, 52 bits of fraction. -/
def ofBits (bits : UInt64) : Binary64 :=
  let negative := decide (0x8000000000000000 ≤ bits.toNat)
  let biased : Nat := bits.toNat / minNormal % 0x800
  let fraction : Nat := bits.toNat % minNormal
  if biased = 0x7ff then
    if fraction = 0 then infinity negative else nan
  else if biased = 0 then finite negative fraction minExponent
  else finite negative (minNormal + fraction) ((biased : Int) - 1 + minExponent)

/-- The number that a `Float` is. -/
def ofFloat (x : Float) : Binary64 := ofBits x.toBits

end Binary64

end UdfBridge
