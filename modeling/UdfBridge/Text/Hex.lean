/-!
# Bytes in hexadecimal

Each byte is written as two digits, the letters in lower case; letters of either case are read.
-/

namespace UdfBridge.Text

/-- The digit of a number below sixteen. -/
def hexDigit (n : Nat) : Char :=
  if n < 10 then .ofNat ('0'.toNat + n) else .ofNat ('a'.toNat + (n - 10))

/-- The number of a digit. -/
def hexValue? (c : Char) : Option Nat :=
  if '0' ≤ c ∧ c ≤ '9' then some (c.toNat - '0'.toNat)
  else if 'a' ≤ c ∧ c ≤ 'f' then some (c.toNat - 'a'.toNat + 10)
  else if 'A' ≤ c ∧ c ≤ 'F' then some (c.toNat - 'A'.toNat + 10)
  else none

/-- The two digits of a byte. -/
def hexOfByte (b : UInt8) : List Char :=
  [hexDigit (b.toNat / 16), hexDigit (b.toNat % 16)]

/-- The digits of some bytes. -/
def toHex (bs : List UInt8) : List Char :=
  bs.flatMap hexOfByte

/-- The bytes of some digits, of which there must be an even number. -/
def ofHex? : List Char → Option (List UInt8)
  | [] => some []
  | [_] => none
  | c :: d :: s =>
    match hexValue? c, hexValue? d, ofHex? s with
    | some a, some b, some bs => some (.ofNat (16 * a + b) :: bs)
    | _, _, _ => none

/-- A digit has the number it was made from. -/
theorem hexValue?_hexDigit : ∀ n < 16, hexValue? (hexDigit n) = some n := by
  decide

/-- Digits give back the bytes they were written for. -/
theorem ofHex?_toHex (bs : List UInt8) : ofHex? (toHex bs) = some bs := by
  induction bs with
  | nil => rfl
  | cons b bs ih =>
    have hb : b.toNat < 256 := b.toNat_lt
    have h1 := hexValue?_hexDigit (b.toNat / 16) (by omega)
    have h2 := hexValue?_hexDigit (b.toNat % 16) (by omega)
    have ih' : ofHex? (bs.flatMap hexOfByte) = some bs := ih
    simp only [toHex, List.flatMap_cons, hexOfByte, List.cons_append, List.nil_append, ofHex?, h1,
      h2, ih', Nat.div_add_mod, UInt8.ofNat_toNat]

end UdfBridge.Text
