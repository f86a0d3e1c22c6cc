import TagQuery.Number.Literal

/-! Numbers of JSON texts.

A number without fraction and exponent is whole if it fits.  Every other number is computed from a
significand of 64 bits and a power of ten, in binary floating point: digits that do not fit are left
out, and each multiplication and division rounds.  So what is read need not be the binary number nearest
to the text, and a binary number need not be read back from its own text. -/

namespace TagQuery.Json

open Number (Binary64 Decimal)

/-! ## The significand -/

/-- Takes digits behind a significand for as long as it fits into 64 bits, and gives the digits that are
left. -/
def takeFitting (significand : Nat) : List Char → Nat × List Char
  | [] => (significand, [])
  | d :: ds =>
    let longer := 10 * significand + (d.toNat - '0'.toNat)
    if longer ≤ 18446744073709551615 then takeFitting longer ds else (significand, d :: ds)

/-- The decimal that is made of the digits that fit.  Whole digits that do not fit count as zeros, and
digits of the fraction are dropped. -/
def fittingDecimal (l : NumberLiteral) : Decimal :=
  let fraction := l.fraction.getD []
  let (whole, zeros) := takeFitting 0 l.whole
  let (significand, dropped) := takeFitting whole fraction
  ⟨significand, zeros.length - (fraction.length - dropped.length : Nat)
    + (l.exponent.map ExponentPart.value).getD 0⟩

/-! ## Scaling -/

/-- The nearest number to a power of ten. -/
def powerOfTen? (n : Nat) : Option Binary64 :=
  Binary64.ofRatio? false (Nat.pow 10 n) 1

/-- The number times a power of ten: multiplied or divided by the power, and divided by `10 ^ 308`
before as long as the exponent is too low for that. -/
def scale? (x : Binary64) (exponent : Int) : Option Binary64 :=
  if exponent.natAbs ≤ 308 then do
    let power ← powerOfTen? exponent.natAbs
    if 0 ≤ exponent then x.times? power else x.over? power
  else if x.significand = 0 then some x
  else if 0 ≤ exponent then none
  else do
    let y ← x.over? (← powerOfTen? 308)
    scale? y (exponent + 308)
termination_by exponent.natAbs

/-- The binary number that a literal is read as. -/
def binaryOf? (l : NumberLiteral) : Option Binary64 := do
  let d := fittingDecimal l
  let magnitude ← scale? (← Binary64.ofRatio? false d.digits 1) d.exponent
  return { magnitude with negative := l.negative }

/-- The number of a literal: a whole one if it is written as one, fits and is not a negative zero. -/
def numberOf? (l : NumberLiteral) : Option Number :=
  (if l.negative && l.decimal.digits == 0 then none else l.whole?) <|> (binaryOf? l).map .binary

end TagQuery.Json
