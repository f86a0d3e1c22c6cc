import TagQuery.Number.Shortest

/-! Numbers of filters and of JSON texts.

A number is whole, from `-2 ^ 63` up to `2 ^ 64 - 1`, or binary floating point.  A whole number and a
binary one are different numbers even where their values meet, and each prints so that it reads back as
what it was. -/

namespace TagQuery

/-- A number as it is written in filters and JSON texts. -/
inductive Number where
  | whole (value : Int) (inRange : -9223372036854775808 ≤ value ∧ value ≤ 18446744073709551615)
  | binary (value : Number.Binary64)
  deriving DecidableEq, Repr

namespace Number

/-- The whole number with this value, if it is in range. -/
def ofInt? (value : Int) : Option Number :=
  if h : -9223372036854775808 ≤ value ∧ value ≤ 18446744073709551615 then some (.whole value h) else none

/-- The whole number of a count, the greatest one if the count exceeds it. -/
def ofCount (n : Nat) : Number :=
  .whole (min n 18446744073709551615) (by omega)

/-- The nearest binary number to a decimal, if it is finite. -/
def ofDecimal? (negative : Bool) (d : Decimal) : Option Number :=
  (Binary64.ofDecimal? negative d).map .binary

/-- The text of a number. -/
def chars : Number → List Char
  | .whole value _ => wholeText value
  | .binary value => value.text

/-- The text of a number. -/
def text (n : Number) : String :=
  String.ofList n.chars

/-- The machine formats that a number falls into. -/
inductive Width where
  | signed64
  | unsigned64
  | float64
  deriving DecidableEq, Repr

/-- The first format that holds the number. -/
def width : Number → Width
  | .whole value _ => if value ≤ 9223372036854775807 then .signed64 else .unsigned64
  | .binary _ => .float64

/-- The two are the same number of the same kind; the zeros of both signs are one. -/
def agrees : Number → Number → Bool
  | .whole x _, .whole y _ => x == y
  | .binary x, .binary y => x.agrees y
  | _, _ => false

end Number

end TagQuery
