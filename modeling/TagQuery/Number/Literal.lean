import TagQuery.Number.Basic
import TagQuery.Text.Word

/-! Number literals of a filter.

A literal is a sign, digits, a fraction and an exponent, each taken as far as it goes, and then every word
character that follows: `12abc` is one literal, though no number.  `NumberLiteral.scan` takes a text apart
and loses nothing (`chars_scan`); `NumberLiteral.value?` reads the parts. -/

namespace TagQuery

/-- The exponent of a literal: its mark, its sign if it has one, and its digits. -/
structure ExponentPart where
  mark : Char
  sign : Option Char
  digits : List Char
  deriving DecidableEq, Repr

/-- A number literal in parts. -/
structure NumberLiteral where
  negative : Bool
  whole : List Char
  /-- The digits behind the point, if there is a point. -/
  fraction : Option (List Char)
  exponent : Option ExponentPart
  /-- The word characters behind the number. -/
  glued : List Char
  deriving DecidableEq, Repr

def isDigit (c : Char) : Bool :=
  c.isDigit

namespace ExponentPart

def chars (e : ExponentPart) : List Char :=
  e.mark :: e.sign.toList ++ e.digits

/-- The exponent at the start of a text, with the rest. -/
def scan : List Char → Option ExponentPart × List Char
  | [] => (none, [])
  | c :: cs =>
    if c = 'e' ∨ c = 'E' then
      match cs with
      | s :: ds =>
        if s = '+' ∨ s = '-' then
          (some ⟨c, some s, ds.takeWhile isDigit⟩, ds.dropWhile isDigit)
        else (some ⟨c, none, cs.takeWhile isDigit⟩, cs.dropWhile isDigit)
      | [] => (some ⟨c, none, []⟩, [])
    else (none, c :: cs)

def value (e : ExponentPart) : Int :=
  if e.sign = some '-' then -(Number.valueOfDigits e.digits : Int)
  else Number.valueOfDigits e.digits

end ExponentPart

namespace NumberLiteral

/-- The fraction at the start of a text, with the rest. -/
def scanFraction : List Char → Option (List Char) × List Char
  | [] => (none, [])
  | c :: cs =>
    if c = '.' then (some (cs.takeWhile isDigit), cs.dropWhile isDigit) else (none, c :: cs)

/-- The sign at the start of a text, with the rest. -/
def scanSign : List Char → Bool × List Char
  | [] => (false, [])
  | c :: cs => if c = '-' then (true, cs) else (false, c :: cs)

/-- The literal at the start of a text, with the rest. -/
def scan (cs : List Char) : NumberLiteral × List Char :=
  let (negative, unsigned) := scanSign cs
  let (fraction, afterFraction) := scanFraction (unsigned.dropWhile isDigit)
  let (exponent, afterExponent) := ExponentPart.scan afterFraction
  (⟨negative, unsigned.takeWhile isDigit, fraction, exponent,
      afterExponent.takeWhile Text.continuesWord⟩,
    afterExponent.dropWhile Text.continuesWord)

/-- The text of the literal. -/
def chars (l : NumberLiteral) : List Char :=
  (if l.negative then ['-'] else []) ++ l.whole
    ++ (match l.fraction with | some ds => '.' :: ds | none => [])
    ++ (match l.exponent with | some e => e.chars | none => [])
    ++ l.glued

/-- The decimal that a literal without glued characters stands for, its sign left out. -/
def decimal (l : NumberLiteral) : Number.Decimal :=
  let fraction := l.fraction.getD []
  ⟨Number.valueOfDigits (l.whole ++ fraction),
    (l.exponent.map ExponentPart.value).getD 0 - fraction.length⟩

/-- The literal has the form of a number: nothing is glued to it and a digit follows an exponent's
mark. -/
def wellFormed (l : NumberLiteral) : Bool :=
  l.glued.isEmpty && (match l.exponent with | some e => !e.digits.isEmpty | none => true)

/-- The whole number that a literal of digits alone stands for. -/
def whole? (l : NumberLiteral) : Option Number :=
  if l.fraction.isNone && l.exponent.isNone then
    let magnitude : Int := Number.valueOfDigits l.whole
    Number.ofInt? (if l.negative then -magnitude else magnitude)
  else none

/-- The number that the literal stands for: a whole number if it is written as one and in range, else
the nearest binary one, unless that would be infinite. -/
def value? (l : NumberLiteral) : Option Number :=
  if l.wellFormed then l.whole? <|> Number.ofDecimal? l.negative l.decimal else none

/-! ## Lemmas -/

theorem chars_scanExponent (cs : List Char) :
    (match (ExponentPart.scan cs).1 with | some e => e.chars | none => [])
      ++ (ExponentPart.scan cs).2 = cs := by
  fun_cases ExponentPart.scan cs <;> simp [ExponentPart.chars, *]

theorem chars_scanFraction (cs : List Char) :
    (match (scanFraction cs).1 with | some ds => '.' :: ds | none => [])
      ++ (scanFraction cs).2 = cs := by
  fun_cases scanFraction cs <;> simp [*]

theorem chars_scanSign (cs : List Char) :
    (if (scanSign cs).1 then ['-'] else []) ++ (scanSign cs).2 = cs := by
  fun_cases scanSign cs <;> simp [*]

/-- Nothing of the text is lost. -/
theorem chars_scan (cs : List Char) : (scan cs).1.chars ++ (scan cs).2 = cs := by
  simp only [scan, chars, List.append_assoc, List.takeWhile_append_dropWhile]
  rw [chars_scanExponent, chars_scanFraction, List.takeWhile_append_dropWhile]
  exact chars_scanSign cs

end NumberLiteral

end TagQuery
