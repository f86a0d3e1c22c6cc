import TagQuery.Json.Number
import TagQuery.Json.Problem
import TagQuery.Number.Digit
import TagQuery.Text.Extent

/-! JSON values from text.

A `Cursor` is a place in a text with the rest of the text behind it.  Readers take a cursor and give what
they read with the cursor behind it, or the first fault they meet; a fault names the place behind the last
character that was taken, or behind the one that was looked at.

Arrays and objects nest 127 deep at most: `Json.readValue` recurses on the levels that are left.  The loops
over items and members end with the text: each turn leaves a shorter rest, and one that did not would be a
fault. -/

namespace TagQuery.Json

/-! ## Cursors -/

/-- A place in a text, and the text behind it. -/
structure Cursor where
  place : Place
  rest : List Char
  deriving DecidableEq, Repr

def Place.after (p : Place) (c : Char) : Place :=
  if c = '\n' then ⟨p.line + 1, 0⟩ else ⟨p.line, p.column + c.utf8Size⟩

/-- The place behind a list of characters. -/
def Place.afterAll (p : Place) (cs : List Char) : Place :=
  cs.foldl Place.after p

namespace Cursor

def ofText (text : String) : Cursor := ⟨⟨1, 0⟩, text.toList⟩

/-- The cursor behind `cs`, with `rest` behind it. -/
def skip (c : Cursor) (cs rest : List Char) : Cursor := ⟨c.place.afterAll cs, rest⟩

def fault (c : Cursor) (p : Problem) : Fault := ⟨p, c.place⟩

/-- A fault that is seen by looking at the next character. -/
def faultAhead (c : Cursor) (p : Problem) : Fault :=
  match c.rest with
  | [] => ⟨p, c.place⟩
  | ch :: _ => ⟨p, c.place.after ch⟩

def isSpace (c : Char) : Bool :=
  c == ' ' || c == '\n' || c == '\t' || c == '\r'

def skipSpace (c : Cursor) : Cursor :=
  c.skip (c.rest.takeWhile isSpace) (c.rest.dropWhile isSpace)

def takeDigits (c : Cursor) : List Char × Cursor :=
  let ds := c.rest.takeWhile isDigit
  (ds, c.skip ds (c.rest.dropWhile isDigit))

end Cursor

/-! ## Words -/

/-- Reads the characters of a word one by one. -/
def readWord (c : Cursor) : List Char → Except Fault Cursor
  | [] => .ok c
  | w :: ws =>
    match c.rest with
    | [] => .error (c.fault (.endOfInput .value))
    | ch :: rest =>
      let behind : Cursor := ⟨c.place.after ch, rest⟩
      if ch = w then readWord behind ws else .error (behind.fault .expectedWord)

/-! ## Strings -/

def readHex (c : Cursor) : Except Fault (Nat × Cursor) :=
  let taken := Text.takeBytes 4 c.rest
  let behind := c.skip taken (c.rest.drop taken.length)
  if Text.byteLength taken < 4 then .error (behind.fault (.endOfInput .string))
  else
    match taken.mapM Number.digitValue? with
    | some [a, b, d, e] => .ok (((a * 16 + b) * 16 + d) * 16 + e, behind)
    | _ => .error (behind.fault .invalidEscape)

/-- Reads one character that has to be there inside a string. -/
def readEscapeMark (expected : Char) (c : Cursor) : Except Fault Cursor :=
  match c.rest with
  | [] => .error (c.fault (.endOfInput .string))
  | ch :: rest =>
    let behind : Cursor := ⟨c.place.after ch, rest⟩
    if ch = expected then .ok behind else .error (behind.fault .unfinishedSurrogate)

/-- Reads the four digits behind `\u`, and a second escape if the first is half a character. -/
def readUnicode (c : Cursor) : Except Fault (Char × Cursor) := do
  let (n, c) ← readHex c
  if 0xDC00 ≤ n ∧ n ≤ 0xDFFF then .error (c.fault .loneSurrogate)
  else if n < 0xD800 ∨ 0xDFFF < n then .ok (Char.ofNat n, c)
  else
    let c ← readEscapeMark '\\' c
    let c ← readEscapeMark 'u' c
    let (m, c) ← readHex c
    if m < 0xDC00 ∨ 0xDFFF < m then .error (c.fault .loneSurrogate)
    else .ok (Char.ofNat (0x10000 + (n - 0xD800) * 0x400 + (m - 0xDC00)), c)

/-- The character that a one-letter escape stands for. -/
def escape? : Char → Option Char
  | '"' => some '"'
  | '\\' => some '\\'
  | '/' => some '/'
  | 'b' => some '\x08'
  | 'f' => some '\x0c'
  | 'n' => some '\n'
  | 'r' => some '\r'
  | 't' => some '\t'
  | _ => none

def readEscape (c : Cursor) : Except Fault (Char × Cursor) :=
  match c.rest with
  | [] => .error (c.fault (.endOfInput .string))
  | ch :: rest =>
    let behind : Cursor := ⟨c.place.after ch, rest⟩
    if ch = 'u' then readUnicode behind
    else
      match escape? ch with
      | some e => .ok (e, behind)
      | none => .error (behind.fault .invalidEscape)

/-- Reads the characters of a string up to its closing quote. -/
def readStringChars (c : Cursor) : Except Fault (List Char × Cursor) :=
  match _hc : c.rest with
  | [] => .error (c.fault (.endOfInput .string))
  | ch :: rest =>
    let behind : Cursor := ⟨c.place.after ch, rest⟩
    if ch = '"' then .ok ([], behind)
    else if ch = '\\' then do
      let (e, d) ← readEscape behind
      if _h : d.rest.length < c.rest.length then
        let (cs, d) ← readStringChars d
        return (e :: cs, d)
      else .error (d.fault .invalidEscape)
    else if ch.toNat < 32 then .error (behind.fault .controlCharacter)
    else do
      let (cs, d) ← readStringChars behind
      return (ch :: cs, d)
termination_by c.rest.length
decreasing_by
  · exact _h
  · simp [_hc]

def readString (c : Cursor) : Except Fault (String × Cursor) := do
  let (cs, c) ← readStringChars c
  return (String.ofList cs, c)

/-! ## Numbers -/

def readSign (c : Cursor) : Option Char × Cursor :=
  match c.rest with
  | s :: rest => if s = '+' ∨ s = '-' then (some s, ⟨c.place.after s, rest⟩) else (none, c)
  | [] => (none, c)

def readFraction (c : Cursor) : Except Fault (Option (List Char) × Cursor) :=
  match c.rest with
  | [] => .ok (none, c)
  | ch :: rest =>
    if ch = '.' then
      let d : Cursor := ⟨c.place.after ch, rest⟩
      let (ds, behind) := d.takeDigits
      if ds.isEmpty then
        .error (d.faultAhead (if d.rest.isEmpty then .endOfInput .value else .invalidNumber))
      else .ok (some ds, behind)
    else .ok (none, c)

def readExponent (c : Cursor) : Except Fault (Option ExponentPart × Cursor) :=
  match c.rest with
  | [] => .ok (none, c)
  | mark :: rest =>
    if mark = 'e' ∨ mark = 'E' then
      let (sign, d) := readSign ⟨c.place.after mark, rest⟩
      match d.rest with
      | [] => .error (d.fault (.endOfInput .value))
      | ch :: rest =>
        if isDigit ch then
          let (ds, behind) := d.takeDigits
          .ok (some ⟨mark, sign, ds⟩, behind)
        else .error ((⟨d.place.after ch, rest⟩ : Cursor).fault .invalidNumber)
    else .ok (none, c)

/-- The digits of an exponent up to the one that makes it greater than 31 bits can hold. -/
def bearableDigits (value : Nat) : List Char → List Char
  | [] => []
  | d :: ds =>
    let longer := 10 * value + (d.toNat - '0'.toNat)
    d :: if 2147483647 < longer then [] else bearableDigits longer ds

/-- Reads the fraction and the exponent behind the digits `whole`, and gives the number.  An exponent
that is too great by itself is a fault where that is seen. -/
def readNumberTail (negative : Bool) (whole : List Char) (c : Cursor) :
    Except Fault (Number × Cursor) := do
  let (fraction, c) ← readFraction c
  let (exponent, d) ← readExponent c
  match numberOf? ⟨negative, whole, fraction, exponent, []⟩ with
  | some n => return (n, d)
  | none =>
    let seen := exponent.elim [] fun e => e.mark :: e.sign.toList ++ bearableDigits 0 e.digits
    .error ⟨.numberOutOfRange, c.place.afterAll seen⟩

def readNumber (negative : Bool) (c : Cursor) : Except Fault (Number × Cursor) :=
  match c.rest with
  | [] => .error (c.fault (.endOfInput .value))
  | ch :: rest =>
    let behind : Cursor := ⟨c.place.after ch, rest⟩
    if ch = '0' then
      match rest.head? with
      | some d =>
        if isDigit d then .error (behind.faultAhead .invalidNumber)
        else readNumberTail negative ['0'] behind
      | none => readNumberTail negative ['0'] behind
    else if isDigit ch then
      let (ds, c) := c.takeDigits
      readNumberTail negative ds c
    else .error (behind.fault .invalidNumber)

/-! ## Scalars -/

/-- A value that is no array and no object. -/
inductive Scalar where
  | null
  | boolean (value : Bool)
  | number (value : Number)
  | string (text : String)
  deriving DecidableEq, Repr

def Scalar.toJson : Scalar → Json
  | .null => .null
  | .boolean b => .boolean b
  | .number n => .number n
  | .string s => .string s

/-- Reads a scalar that starts with `ch`, of which the cursor has passed. -/
def readScalar (ch : Char) (c behind : Cursor) : Except Fault (Scalar × Cursor) :=
  if ch = 'n' then do return (.null, ← readWord behind "ull".toList)
  else if ch = 't' then do return (.boolean true, ← readWord behind "rue".toList)
  else if ch = 'f' then do return (.boolean false, ← readWord behind "alse".toList)
  else if ch = '-' then do
    let (n, d) ← readNumber true behind
    return (.number n, d)
  else if isDigit ch then do
    let (n, d) ← readNumber false c
    return (.number n, d)
  else if ch = '"' then do
    let (s, d) ← readString behind
    return (.string s, d)
  else .error (c.faultAhead .expectedValue)

/-! ## Arrays and objects -/

/-- Looks for the next item of an array: the cursor at its start, or `none` in front of the bracket. -/
def nextItem (first : Bool) (c : Cursor) : Except Fault (Option Cursor × Cursor) :=
  let c := c.skipSpace
  match c.rest with
  | [] => .error (c.fault (.endOfInput .list))
  | ch :: rest =>
    if ch = ']' then .ok (none, c)
    else if first then .ok (some c, c)
    else if ch = ',' then
      let d := (⟨c.place.after ch, rest⟩ : Cursor).skipSpace
      match d.rest with
      | [] => .error (d.fault (.endOfInput .value))
      | x :: _ =>
        if x = ']' then .error (d.faultAhead .trailingComma) else .ok (some d, d)
    else .error (c.faultAhead .expectedCommaOrBracket)

/-- The cursor behind the bracket that ends an array, or why it cannot end here. -/
def endArray (c : Cursor) : Except Fault Cursor :=
  let c := c.skipSpace
  match c.rest with
  | [] => .error (c.fault (.endOfInput .list))
  | ch :: rest =>
    let behind : Cursor := ⟨c.place.after ch, rest⟩
    if ch = ']' then .ok behind
    else if ch = ',' then
      let d := behind.skipSpace
      .error (d.faultAhead
        (if d.rest.head? = some ']' then .trailingComma else .trailingCharacters))
    else .error (c.faultAhead .trailingCharacters)

/-- Looks for the next key of an object: the cursor behind its opening quote, or `none` in front of the
brace. -/
def nextKey (first : Bool) (c : Cursor) : Except Fault (Option Cursor × Cursor) :=
  let c := c.skipSpace
  match c.rest with
  | [] => .error (c.fault (.endOfInput .object))
  | ch :: rest =>
    let behind : Cursor := ⟨c.place.after ch, rest⟩
    if ch = '\x7d' then .ok (none, c)
    else if first then
      if ch = '"' then .ok (some behind, behind) else .error (c.faultAhead .keyNotString)
    else if ch = ',' then
      let d := behind.skipSpace
      match d.rest with
      | [] => .error (d.fault (.endOfInput .value))
      | x :: rest =>
        if x = '"' then
          let e : Cursor := ⟨d.place.after x, rest⟩
          .ok (some e, e)
        else .error (d.faultAhead (if x = '\x7d' then .trailingComma else .keyNotString))
    else .error (c.faultAhead .expectedCommaOrBrace)

/-- The cursor behind the colon between a key and its value. -/
def readColon (c : Cursor) : Except Fault Cursor :=
  let c := c.skipSpace
  match c.rest with
  | [] => .error (c.fault (.endOfInput .object))
  | ch :: rest =>
    if ch = ':' then .ok ⟨c.place.after ch, rest⟩ else .error (c.faultAhead .expectedColon)

/-- The cursor behind the brace that ends an object, or why it cannot end here. -/
def endObject (c : Cursor) : Except Fault Cursor :=
  let c := c.skipSpace
  match c.rest with
  | [] => .error (c.fault (.endOfInput .object))
  | ch :: rest =>
    if ch = '\x7d' then .ok ⟨c.place.after ch, rest⟩
    else .error (c.faultAhead (if ch = ',' then .trailingComma else .trailingCharacters))

/-- Reads items with `item` up to the end of an array. -/
def readItems {α : Type} (item : Cursor → Except Fault (α × Cursor)) (first : Bool) (c : Cursor) :
    Except Fault (List α × Cursor) := do
  let (next, d) ← nextItem first c
  match next with
  | none => return ([], d)
  | some d =>
    let (x, e) ← item d
    if _h : e.rest.length < c.rest.length then
      let (xs, e) ← readItems item false e
      return (x :: xs, e)
    else .error (e.fault .expectedValue)
termination_by c.rest.length
decreasing_by exact _h

/-- Reads keys, and a value with `value` behind each, up to the end of an object. -/
def readMembers {α : Type} (value : Cursor → Except Fault (α × Cursor)) (first : Bool)
    (c : Cursor) : Except Fault (List (String × α) × Cursor) := do
  let (next, d) ← nextKey first c
  match next with
  | none => return ([], d)
  | some d =>
    let (key, d) ← readString d
    let d ← readColon d
    let (x, e) ← value d
    if _h : e.rest.length < c.rest.length then
      let (xs, e) ← readMembers value false e
      return ((key, x) :: xs, e)
    else .error (e.fault .expectedValue)
termination_by c.rest.length
decreasing_by exact _h

/-- How deep arrays and objects may be nested. -/
def maxNesting : Nat := 127

/-- Reads a value that may have arrays and objects nested `levels` deep. -/
def readValue (levels : Nat) (c : Cursor) : Except Fault (Json × Cursor) :=
  let c := c.skipSpace
  match c.rest with
  | [] => .error (c.fault (.endOfInput .value))
  | ch :: rest =>
    let behind : Cursor := ⟨c.place.after ch, rest⟩
    if ch = '[' then
      match levels with
      | 0 => .error (c.faultAhead .nestedTooDeep)
      | levels + 1 => do
        let (items, d) ← readItems (readValue levels) true behind
        return (.array items, ← endArray d)
    else if ch = '\x7b' then
      match levels with
      | 0 => .error (c.faultAhead .nestedTooDeep)
      | levels + 1 => do
        let (members, d) ← readMembers (readValue levels) true behind
        return (.object (sortMembers members), ← endObject d)
    else do
      let (s, d) ← readScalar ch c behind
      return (s.toJson, d)

/-- Nothing but white space stands behind the cursor. -/
def readEnd (c : Cursor) : Except Fault Unit :=
  let c := c.skipSpace
  if c.rest.isEmpty then .ok () else .error (c.faultAhead .trailingCharacters)

/-- The value that a text stands for; of two members with one key the later one counts. -/
def read (text : String) : Except Fault Json := do
  let (v, c) ← readValue maxNesting (.ofText text)
  readEnd c
  return v

end TagQuery.Json
