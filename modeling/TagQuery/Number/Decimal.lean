import TagQuery.Number.Binary64

/-! Decimal numbers: reading digits, and the nearest binary number to a decimal.

`Decimal` is `digits * 10 ^ exponent`.  `Binary64.ofDecimal?` rounds it correctly; decimals so large or so
small that only one answer is left are decided by their size alone, before any power of ten is formed. -/

namespace TagQuery.Number

/-- The natural number `digits * 10 ^ exponent`, which need not be whole. -/
structure Decimal where
  digits : Nat
  exponent : Int
  deriving DecidableEq, Repr

/-- The value of a row of ASCII digits. -/
def valueOfDigits (ds : List Char) : Nat :=
  ds.foldl (fun n d => 10 * n + (d.toNat - '0'.toNat)) 0

/-- The digits of a natural number, the highest first. -/
def digitsOf (n : Nat) : List Char :=
  Nat.toDigits 10 n

def countText (n : Nat) : String :=
  String.ofList (digitsOf n)

def wholeText (i : Int) : List Char :=
  if i < 0 then '-' :: digitsOf i.natAbs else digitsOf i.natAbs

namespace Decimal

def ratio (d : Decimal) : Nat × Nat :=
  (d.digits * Nat.pow 10 d.exponent.toNat, Nat.pow 10 (-d.exponent).toNat)

/-- The decimal without zeros at the end of its digits; at most `fuel` of them are dropped. -/
def dropZeros : Nat → Decimal → Decimal
  | 0, d => d
  | fuel + 1, d =>
    if d.digits ≠ 0 ∧ d.digits % 10 = 0 then dropZeros fuel ⟨d.digits / 10, d.exponent + 1⟩ else d

end Decimal

/-- The nearest binary number to a decimal; `none` if that lies beyond the largest one. -/
def Binary64.ofDecimal? (negative : Bool) (d : Decimal) : Option Binary64 :=
  let size := (digitsOf d.digits).length + d.exponent
  if d.digits = 0 ∨ size < -330 then some (.zero negative)
  else if 310 < size then none
  else Binary64.ofRatio? negative d.ratio.1 d.ratio.2

end TagQuery.Number
