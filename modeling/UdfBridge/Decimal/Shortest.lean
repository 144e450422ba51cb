import UdfBridge.Decimal.Binary64

/-!
# The shortest decimal of a binary number

The shortest decimal of a binary number is the one with the fewest digits among those that round
to it, and of several such the nearest to it. The reals that round to `m * 2 ^ q` are an interval
around it, which includes its ends if `m` is even. For 1, 2, … 17 digits `shortest` tests the two
neighbours of the number on the grid of decimals with so many digits; the first grid with a
neighbour in the interval wins, of two neighbours the nearer does, and of two equally near ones
the greater. All of it is arithmetic of natural numbers.
-/

namespace UdfBridge

/-- The number `coefficient * 10 ^ exponent`. -/
structure Decimal where
  /-- The digits of the number, read as one natural number. -/
  coefficient : Nat
  /-- The power of ten that the coefficient counts. -/
  exponent : Int
deriving DecidableEq, Repr, Inhabited

namespace Decimal

/-- The number of decimal digits of a positive number. -/
def numDigits (n : Nat) : Nat := (Nat.toDigits 10 n).length

/-- The number `c * 10 ^ k` with no zero at the end of its coefficient. -/
def ofScaled (c : Nat) (k : Int) : Decimal :=
  if h : c ≠ 0 ∧ c % 10 = 0 then ofScaled (c / 10) (k + 1)
  else ⟨c, k⟩
termination_by c
decreasing_by omega

/-- A positive rational number. -/
structure Ratio where
  num : Nat
  den : Nat

/-- The number `n * 2 ^ q / 10 ^ k` as a ratio. -/
def Ratio.scaled (n : Nat) (q k : Int) : Ratio :=
  ⟨n * Nat.pow 2 q.toNat * Nat.pow 10 (-k).toNat, Nat.pow 2 (-q).toNat * Nat.pow 10 k.toNat⟩

/-- The power of ten of the first digit of a positive ratio. -/
def Ratio.magnitude (r : Ratio) : Int :=
  if r.den ≤ r.num then (numDigits (r.num / r.den) : Int) - 1
  else -(numDigits ((r.den - 1) / r.num) : Int)

/-- The reals that round to a binary number, as two ends in quarters of the place of its last bit:
the quarters below and above `4 * m` that reach halfway to its neighbours. -/
structure Interval where
  low : Nat
  high : Nat
  closed : Bool

/-- The interval of `m * 2 ^ q`. Below a power of two the neighbour is half as far away. -/
def Interval.of (m : Nat) (q : Int) : Interval :=
  let below := if m = Binary64.minNormal ∧ Binary64.minExponent < q then 1 else 2
  ⟨4 * m - below, 4 * m + 2, m % 2 = 0⟩

/-- Whether the decimal `d * 10 ^ k` lies in the interval, whose quarters count `2 ^ q`. -/
def Interval.contains (i : Interval) (q : Int) (d : Nat) (k : Int) : Bool :=
  let low := Ratio.scaled i.low q k
  let high := Ratio.scaled i.high q k
  if i.closed then low.num ≤ d * low.den && d * high.den ≤ high.num
  else low.num < d * low.den && d * high.den < high.num

/-- The neighbour of `m * 2 ^ q` on the grid of the multiples of `10 ^ k` that rounds to it, if
one does: of two the nearer, and of two equally near ones the greater. -/
def neighbour? (m : Nat) (q k : Int) : Option Nat :=
  let i := Interval.of m q
  let v := Ratio.scaled (4 * m) (q - 2) k
  let d := v.num / v.den
  match i.contains (q - 2) d k, i.contains (q - 2) (d + 1) k with
  | true, true => some (if v.den ≤ 2 * (v.num % v.den) then d + 1 else d)
  | true, false => some d
  | false, true => some (d + 1)
  | false, false => none

/-- The most digits that a shortest decimal needs. -/
def maxDigits : Nat := 17

/-- The shortest decimal that rounds to `m * 2 ^ q`, searched among those with `n` digits, `n + 1`
digits and so on for `fuel` numbers of digits, where the first digit counts `10 ^ top`. -/
def search (m : Nat) (q top : Int) (n : Nat) : Nat → Option Decimal
  | 0 => none
  | fuel + 1 =>
    let k := top - n + 1
    match neighbour? m q k with
    | some d => some (ofScaled d k)
    | none => search m q top (n + 1) fuel

/-- The shortest decimal that rounds to `m * 2 ^ q`. -/
def shortest (m : Nat) (q : Int) : Decimal :=
  if m = 0 then ⟨0, 0⟩
  else (search m q (Ratio.scaled (4 * m) (q - 2) 0).magnitude 1 maxDigits).getD ⟨0, 0⟩

end Decimal

end UdfBridge
