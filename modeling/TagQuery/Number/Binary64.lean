/-! Finite binary floating-point numbers of 64 bits, kept exactly.

A magnitude is `significand * 2 ^ exponent` in units of `2 ^ -1074`, the least positive number of the
format.  Each number has one such form, so equality of the structures is equality of the bits; the two
zeros differ in their sign.

`ofRatio?` rounds an exact quotient to the nearest number, a tie going to the even significand, and
answers `none` beyond the largest one.  Products and quotients of numbers are rounded in the same way.  No
arithmetic of the machine is involved. -/

namespace TagQuery.Number

/-- A finite number of the binary64 format. -/
structure Binary64 where
  negative : Bool
  significand : Nat
  exponent : Nat
  /-- The significand has 53 bits and the exponent stays below that of the infinities. -/
  inFormat : significand < Nat.pow 2 53 ∧ exponent ≤ 2045
  /-- Only the numbers of the lowest exponent may have a short significand. -/
  normalized : exponent = 0 ∨ Nat.pow 2 52 ≤ significand
  deriving DecidableEq, Repr

/-- `num / den` rounded to the nearest natural number, a tie going to the even one. -/
def roundHalfEven (num den : Nat) : Nat :=
  let q := num / den
  let r := num % den
  if 2 * r < den ∨ (2 * r = den ∧ q % 2 = 0) then q else q + 1

namespace Binary64

/-- The number with this significand and exponent, if the format has it. -/
def ofParts? (negative : Bool) (significand exponent : Nat) : Option Binary64 :=
  if h : (significand < Nat.pow 2 53 ∧ exponent ≤ 2045) ∧
      (exponent = 0 ∨ Nat.pow 2 52 ≤ significand) then
    some ⟨negative, significand, exponent, h.1, h.2⟩
  else none

def zero (negative : Bool) : Binary64 :=
  ⟨negative, 0, 0, by decide, .inl rfl⟩

/-- The nearest number to `num / den`; `none` if that lies beyond the largest one. -/
def ofRatio? (negative : Bool) (num den : Nat) : Option Binary64 :=
  let units := num * Nat.pow 2 1074
  let exponent := (units / den).log2 - 52
  let significand := roundHalfEven units (den * Nat.pow 2 exponent)
  if significand = Nat.pow 2 53 then ofParts? negative (Nat.pow 2 52) (exponent + 1)
  else ofParts? negative significand exponent

/-- The magnitude in units of `2 ^ -1074`. -/
def units (x : Binary64) : Nat :=
  x.significand * Nat.pow 2 x.exponent

/-- The product, rounded; `none` if that lies beyond the largest number. -/
def times? (x y : Binary64) : Option Binary64 :=
  ofRatio? (x.negative != y.negative) (x.units * y.units) (Nat.pow 2 2148)

/-- The quotient by a number that is not zero, rounded; `none` if that lies beyond the largest number. -/
def over? (x y : Binary64) : Option Binary64 :=
  ofRatio? (x.negative != y.negative) x.units y.units

/-- The two are the same number; the zeros of both signs are one. -/
def agrees (x y : Binary64) : Bool :=
  x == y || x.significand == 0 && y.significand == 0

end Binary64

/-! ## Lemmas -/

theorem roundHalfEven_mul_left (m : Nat) {d : Nat} (h : 0 < d) : roundHalfEven (m * d) d = m := by
  simp [roundHalfEven, Nat.mul_div_cancel _ h, h]

namespace Binary64

@[simp] theorem ofParts?_eq (x : Binary64) :
    ofParts? x.negative x.significand x.exponent = some x := by
  simp only [ofParts?]
  rw [dif_pos ⟨x.inFormat, x.normalized⟩]

end Binary64

end TagQuery.Number
