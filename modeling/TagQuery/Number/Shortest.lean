import TagQuery.Number.Decimal

/-! The shortest decimal that reads back as a given binary number.

For 1, 2, … 17 digits the two neighbours of the number on that decimal grid are tried, the nearer one
first and the even one first in a tie; the first that reads back is the answer (`shortest`).  Every
binary number is itself a decimal (`exact`), so the search never ends without one that reads back. -/

namespace TagQuery.Number.Binary64

/-! ## Algorithm -/

/-- The magnitude as a decimal, exactly. -/
def exact (x : Binary64) : Decimal :=
  if 1074 ≤ x.exponent then ⟨x.significand * Nat.pow 2 (x.exponent - 1074), 0⟩
  else ⟨x.significand * Nat.pow 5 (1074 - x.exponent), x.exponent - 1074⟩

/-- The place of the highest digit: the `e` with `10 ^ e ≤ num / den < 10 ^ (e + 1)`. -/
def leadingPlace (num den : Nat) : Int :=
  let e : Int := (digitsOf num).length - (digitsOf den).length
  if den * Nat.pow 10 e.toNat ≤ num * Nat.pow 10 (-e).toNat then e else e - 1

/-- The two neighbours of `num / den` among the multiples of `10 ^ place`, the one to be preferred
first. -/
def neighbours (num den : Nat) (place : Int) : List Decimal :=
  let n := num * Nat.pow 10 (-place).toNat
  let d := den * Nat.pow 10 place.toNat
  let below : Decimal := ⟨n / d, place⟩
  let above : Decimal := ⟨n / d + 1, place⟩
  if roundHalfEven n d = n / d then [below, above] else [above, below]

/-- The decimals that are tried: for each number of digits up to 17 both neighbours, and the exact one
last. -/
def candidates (x : Binary64) : List Decimal :=
  let (num, den) := (exact x).ratio
  let top := leadingPlace num den
  (List.range 17).flatMap (fun n : Nat => neighbours num den (top - n)) ++ [exact x]

/-- The shortest decimal that reads back as the magnitude of `x`, the nearest of those. -/
def shortest (x : Binary64) : Decimal :=
  if x.significand = 0 then ⟨0, 0⟩
  else
    let found := (candidates x).find? fun d => ofDecimal? x.negative d = some x
    let d := found.getD (exact x)
    d.dropZeros (digitsOf d.digits).length

/-! ## Layout -/

/-- How the digits of a number are laid out as text. -/
structure Layout where
  /-- The least place of the first digit that is written without an exponent. -/
  lowest : Int
  /-- The greatest place of the first digit that is written without an exponent. -/
  highest : Int
  /-- The mark before the exponent. -/
  mark : Char

/-- Numbers from `0.00001` up to sixteen digits before the point are written without an exponent, and
then always with a point; other numbers as one digit, a fraction if there is one, and a signed
exponent. -/
def layout : Layout :=
  ⟨-5, 15, 'e'⟩

/-- The digits `ds`, the first at the place `place`, with a decimal point. -/
def positional (ds : List Char) (place : Int) : List Char :=
  if place < 0 then
    '0' :: '.' :: List.replicate (-place - 1).toNat '0' ++ ds
  else
    let width := place.toNat + 1
    let whole := ds.take width ++ List.replicate (width - ds.length) '0'
    let fraction := ds.drop width
    whole ++ '.' :: (if fraction = [] then ['0'] else fraction)

/-- The digits `ds`, the first at the place `place`, with an exponent. -/
def scientific (mark : Char) (ds : List Char) (place : Int) : List Char :=
  let fraction := ds.drop 1
  ds.take 1 ++ (if fraction = [] then [] else '.' :: fraction)
    ++ mark :: (if place < 0 then '-' else '+') :: digitsOf place.natAbs

def text (x : Binary64) : List Char :=
  let d := shortest x
  let ds := digitsOf d.digits
  let place := d.exponent + ds.length - 1
  let magnitude :=
    if layout.lowest ≤ place ∧ place ≤ layout.highest then positional ds place
    else scientific layout.mark ds place
  if x.negative then '-' :: magnitude else magnitude

end TagQuery.Number.Binary64
