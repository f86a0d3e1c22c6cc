import TagQuery.Number.Digit
import TagQuery.Number.Literal
import TagQuery.Toml.Basic

/-! Strings, numbers and moments of TOML.

Each reader takes the text from the place where the thing starts, and gives the thing with the rest of the
text; `none` means that no such thing starts there. -/

namespace TagQuery.Toml

/-! ## Characters -/

def isGap (c : Char) : Bool :=
  c == ' ' || c == '\t'

def skipGap (cs : List Char) : List Char :=
  cs.dropWhile isGap

/-- A character that may stand in a comment or a string. -/
def isPlain (c : Char) : Bool :=
  c == '\t' || (32 ≤ c.toNat && c.toNat != 127)

def readBreak : List Char → Option (List Char)
  | '\n' :: rest => some rest
  | '\r' :: '\n' :: rest => some rest
  | _ => none

def readWord : List Char → List Char → Option (List Char)
  | [], cs => some cs
  | w :: ws, c :: cs => if c = w then readWord ws cs else none
  | _ :: _, [] => none

/-! ## Strings -/

def readCodePoint (digits : Nat) (cs : List Char) : Option (Char × List Char) :=
  let ds := cs.take digits
  if ds.length = digits ∧ ds.all fun d => (Number.digitValue? d).isSome then
    let n := Number.valueInBase 16 ds
    if n.isValidChar then some (Char.ofNat n, cs.drop digits) else none
  else none

def readEscape : List Char → Option (Char × List Char)
  | 'b' :: rest => some ('\x08', rest)
  | 'f' :: rest => some ('\x0c', rest)
  | 'n' :: rest => some ('\n', rest)
  | 'r' :: rest => some ('\r', rest)
  | 't' :: rest => some ('\t', rest)
  | '"' :: rest => some ('"', rest)
  | '\\' :: rest => some ('\\', rest)
  | 'u' :: rest => readCodePoint 4 rest
  | 'U' :: rest => readCodePoint 8 rest
  | _ => none

/-- Reads a string of one line behind its opening quote.  Only between double quotes a backslash starts an
escape. -/
def readLine (quote : Char) (cs : List Char) : Option (List Char × List Char) :=
  match _hc : cs with
  | [] => none
  | c :: rest =>
    if c = quote then some ([], rest)
    else if c = '\\' ∧ quote = '"' then do
      let (e, rest) ← readEscape rest
      if _h : rest.length < cs.length then
        let (s, rest) ← readLine quote rest
        return (e :: s, rest)
      else none
    else if isPlain c then do
      let (s, rest) ← readLine quote rest
      return (c :: s, rest)
    else none
termination_by cs.length
decreasing_by
  · simpa [_hc] using _h
  · simp

/-- The text behind a line break that a backslash hides, and behind all blanks that follow it. -/
def readHiddenBreak (cs : List Char) : Option (List Char) :=
  (readBreak (skipGap cs)).map fun rest => skipBlankLines rest
where
  skipBlankLines : List Char → List Char
    | ' ' :: rest => skipBlankLines rest
    | '\t' :: rest => skipBlankLines rest
    | '\n' :: rest => skipBlankLines rest
    | '\r' :: '\n' :: rest => skipBlankLines rest
    | rest => rest

/-- Reads a string of several lines behind its opening quotes.  Three quotes end it, and up to two more in
front of them belong to it. -/
def readLines (quote : Char) (cs : List Char) : Option (List Char × List Char) :=
  let quotes := (cs.takeWhile (· == quote)).length
  if 3 ≤ quotes then
    let taken := min quotes 5
    some (List.replicate (taken - 3) quote, cs.drop taken)
  else
    match _hc : cs with
    | [] => none
    | c :: rest =>
      if c = '\\' ∧ quote = '"' then
        match readHiddenBreak rest with
        | some rest =>
          if _h : rest.length < cs.length then readLines quote rest else none
        | none => do
          let (e, rest) ← readEscape rest
          if _h : rest.length < cs.length then
            let (s, rest) ← readLines quote rest
            return (e :: s, rest)
          else none
      else if isPlain c then do
        let (s, rest) ← readLines quote rest
        return (c :: s, rest)
      else
        match readBreak cs with
        | some rest =>
          if _h : rest.length < cs.length then do
            let (s, rest) ← readLines quote rest
            return ('\n' :: s, rest)
          else none
        | none => none
termination_by cs.length
decreasing_by
  · simpa [_hc] using _h
  · simpa [_hc] using _h
  · simp
  · simpa [_hc] using _h

def readString : List Char → Option (String × List Char)
  | '"' :: '"' :: '"' :: rest => several '"' rest
  | '\'' :: '\'' :: '\'' :: rest => several '\'' rest
  | '"' :: rest => single '"' rest
  | '\'' :: rest => single '\'' rest
  | _ => none
where
  single (quote : Char) (cs : List Char) : Option (String × List Char) :=
    (readLine quote cs).map fun r => (String.ofList r.1, r.2)
  several (quote : Char) (cs : List Char) : Option (String × List Char) :=
    (readLines quote ((readBreak cs).getD cs)).map fun r => (String.ofList r.1, r.2)

/-! ## Numbers -/

/-- Reads digits with single underscores between them; `due` says that a digit has to come now. -/
def readDigits (isDigit : Char → Bool) : Bool → List Char → Option (List Char × List Char)
  | due, [] => if due then none else some ([], [])
  | due, c :: rest =>
    if isDigit c then do
      let (ds, rest) ← readDigits isDigit false rest
      return (c :: ds, rest)
    else if due then none
    else if c = '_' then readDigits isDigit true rest
    else some ([], c :: rest)

/-- The sign at the start of a text: whether it is a minus, and the rest. -/
def readSign : List Char → Bool × List Char
  | '+' :: rest => (false, rest)
  | '-' :: rest => (true, rest)
  | cs => (false, cs)

/-- Reads the digits of a whole number, which have no zero in front. -/
def readWhole : List Char → Option (List Char × List Char)
  | '0' :: rest => some (['0'], rest)
  | cs => readDigits isDigit true cs

def readFraction : List Char → Option (Option (List Char) × List Char)
  | '.' :: rest => (readDigits isDigit true rest).map fun r => (some r.1, r.2)
  | cs => some (none, cs)

def readExponent : List Char → Option (Option ExponentPart × List Char)
  | [] => some (none, [])
  | mark :: rest =>
    if mark = 'e' ∨ mark = 'E' then
      let (negative, unsigned) := readSign rest
      (readDigits isDigit true unsigned).map fun r =>
        (some ⟨mark, if negative then some '-' else none, r.1⟩, r.2)
    else some (none, mark :: rest)

/-- The integers that can be written: those of 64 bits. -/
def fitsInteger (i : Int) : Bool :=
  -9223372036854775808 ≤ i && i ≤ 9223372036854775807

/-- Reads an integer of another base than ten behind its mark. -/
def readBased (base : Nat) (cs : List Char) : Option (Item × List Char) := do
  let (ds, rest) ← readDigits (fun c => (Number.digitValue? c).any (· < base)) true cs
  let i : Int := Number.valueInBase base ds
  if fitsInteger i then return (.integer i, rest) else none

/-- Reads an integer or a float of base ten.  A float has to be finite, or below all numbers. -/
def readDecimal (cs : List Char) : Option (Item × List Char) := do
  let (negative, unsigned) := readSign cs
  let (whole, rest) ← readWhole unsigned
  let (fraction, rest) ← readFraction rest
  let (exponent, rest) ← readExponent rest
  let l : NumberLiteral := ⟨negative, whole, fraction, exponent, []⟩
  if fraction.isNone && exponent.isNone then
    let magnitude : Int := Number.valueOfDigits whole
    let i := if negative then -magnitude else magnitude
    if fitsInteger i then return (.integer i, rest) else none
  else if negative || (Number.ofDecimal? false l.decimal).isSome then
    return (.float (String.ofList l.chars), rest)
  else none

def readSpecial (cs : List Char) : Option (Item × List Char) :=
  let (negative, unsigned) := readSign cs
  let sign := if negative then "-" else ""
  ((readWord "inf".toList unsigned).map fun rest => (.float (sign ++ "inf"), rest))
    <|> ((readWord "nan".toList unsigned).map fun rest => (.float (sign ++ "nan"), rest))

def readNumber : List Char → Option (Item × List Char)
  | '0' :: 'x' :: rest => readBased 16 rest
  | '0' :: 'o' :: rest => readBased 8 rest
  | '0' :: 'b' :: rest => readBased 2 rest
  | cs => readSpecial cs <|> readDecimal cs

/-! ## Moments -/

def readFixed (digits : Nat) (cs : List Char) : Option (Nat × List Char) :=
  let ds := cs.take digits
  if ds.length = digits ∧ ds.all isDigit then
    some (Number.valueOfDigits ds, cs.drop digits)
  else none

/-- Reads a number of two digits between two bounds. -/
def readPart (lowest highest : Nat) (cs : List Char) : Option (Nat × List Char) := do
  let (n, rest) ← readFixed 2 cs
  if lowest ≤ n ∧ n ≤ highest then return (n, rest) else none

def isLeapYear (year : Nat) : Bool :=
  year % 4 == 0 && (year % 100 != 0 || year % 400 == 0)

def daysIn (year month : Nat) : Nat :=
  if month = 2 then if isLeapYear year then 29 else 28
  else if month = 4 ∨ month = 6 ∨ month = 9 ∨ month = 11 then 30
  else 31

def readDate (cs : List Char) : Option (List Char) := do
  let (year, rest) ← readFixed 4 cs
  let rest ← readWord ['-'] rest
  let (month, rest) ← readPart 1 12 rest
  let rest ← readWord ['-'] rest
  let (_, rest) ← readPart 1 (daysIn year month) rest
  return rest

/-- The text behind the fraction of a second, if there is one. -/
def skipSecondFraction : List Char → List Char
  | '.' :: c :: rest => if isDigit c then rest.dropWhile isDigit else '.' :: c :: rest
  | cs => cs

def readTime (cs : List Char) : Option (List Char) := do
  let (_, rest) ← readPart 0 23 cs
  let rest ← readWord [':'] rest
  let (_, rest) ← readPart 0 59 rest
  let rest ← readWord [':'] rest
  let (_, rest) ← readPart 0 60 rest
  return skipSecondFraction rest

/-- The text behind the distance from universal time. -/
def readZone : List Char → Option (List Char)
  | 'Z' :: rest | 'z' :: rest => some rest
  | '+' :: rest | '-' :: rest => do
    let (_, rest) ← readPart 0 23 rest
    let rest ← readWord [':'] rest
    let (_, rest) ← readPart 0 59 rest
    return rest
  | _ => none

/-- The text behind a time of day that stands behind a date. -/
def readTimeOfDate : List Char → Option (List Char)
  | [] => none
  | c :: rest =>
    if c = 'T' ∨ c = 't' ∨ c = ' ' then
      (readTime rest).map fun rest => (readZone rest).getD rest
    else none

/-- The text behind a date, a time of day or both. -/
def skipMoment (cs : List Char) : Option (List Char) :=
  match readDate cs with
  | some rest => some ((readTimeOfDate rest).getD rest)
  | none => readTime cs

def readMoment (cs : List Char) : Option (Item × List Char) :=
  (skipMoment cs).map fun rest =>
    (.moment (String.ofList (cs.take (cs.length - rest.length))), rest)

/-! ## Scalars -/

def readScalar (cs : List Char) : Option (Item × List Char) :=
  ((readString cs).map fun r => (.string r.1, r.2))
    <|> ((readWord "true".toList cs).map fun rest => (.boolean true, rest))
    <|> ((readWord "false".toList cs).map fun rest => (.boolean false, rest))
    <|> readMoment cs
    <|> readNumber cs

end TagQuery.Toml
