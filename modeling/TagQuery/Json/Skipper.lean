import TagQuery.Json.Reader

/-! Values that are passed over.

A value that nobody asks for is checked for its form alone: half characters and numbers of any size pass,
and brackets nest as deep as they like.  So `skipValue` keeps the open brackets on a stack of its own. -/

namespace TagQuery.Json

/-! ## Scalars -/

/-- Passes over a string behind its opening quote. -/
def skipString (c : Cursor) : Except Fault Cursor :=
  match _hc : c.rest with
  | [] => .error (c.fault (.endOfInput .string))
  | ch :: rest =>
    let behind : Cursor := ⟨c.place.after ch, rest⟩
    if ch = '"' then .ok behind
    else if ch = '\\' then
      match _hr : rest with
      | [] => .error (behind.fault (.endOfInput .string))
      | e :: rest' =>
        let d : Cursor := ⟨behind.place.after e, rest'⟩
        if e = 'u' then do
          let (_, d) ← readHex d
          if _h : d.rest.length < c.rest.length then skipString d
          else .error (d.fault .invalidEscape)
        else if (escape? e).isSome then skipString d
        else .error (d.fault .invalidEscape)
    else if ch.toNat < 32 then .error (c.fault .controlCharacter)
    else skipString behind
termination_by c.rest.length
decreasing_by
  · exact _h
  · simp only [_hc, List.length_cons]
    omega
  · simp [_hc]

/-- Passes over the digits in front of a point. -/
def skipWhole (c : Cursor) : Except Fault Cursor :=
  match c.rest with
  | [] => .error (c.fault .invalidNumber)
  | ch :: rest =>
    let behind : Cursor := ⟨c.place.after ch, rest⟩
    if ch = '0' then
      if (rest.head?.map isDigit).getD false then .error (behind.faultAhead .invalidNumber)
      else .ok behind
    else if isDigit ch then .ok c.takeDigits.2
    else .error (behind.fault .invalidNumber)

/-- Passes over a point and the digits behind it. -/
def skipFraction (c : Cursor) : Except Fault Cursor :=
  match c.rest with
  | [] => .ok c
  | ch :: rest =>
    if ch = '.' then
      let d : Cursor := ⟨c.place.after ch, rest⟩
      if d.takeDigits.1.isEmpty then .error (d.faultAhead .invalidNumber) else .ok d.takeDigits.2
    else .ok c

def skipExponent (c : Cursor) : Except Fault Cursor :=
  match c.rest with
  | [] => .ok c
  | mark :: rest =>
    if mark = 'e' ∨ mark = 'E' then
      let (_, d) := readSign ⟨c.place.after mark, rest⟩
      match d.rest with
      | [] => .error (d.fault .invalidNumber)
      | ch :: rest =>
        if isDigit ch then .ok d.takeDigits.2
        else .error ((⟨d.place.after ch, rest⟩ : Cursor).fault .invalidNumber)
    else .ok c

def skipNumber (c : Cursor) : Except Fault Cursor := do
  skipExponent (← skipFraction (← skipWhole c))

/-- Passes over a scalar that starts with `ch`, of which `behind` has passed. -/
def skipScalar (ch : Char) (c behind : Cursor) : Except Fault Cursor :=
  if ch = 'n' then readWord behind "ull".toList
  else if ch = 't' then readWord behind "rue".toList
  else if ch = 'f' then readWord behind "alse".toList
  else if ch = '-' then skipNumber behind
  else if isDigit ch then skipNumber c
  else if ch = '"' then skipString behind
  else .error (c.faultAhead .expectedValue)

/-! ## Brackets -/

inductive Bracket where
  | array
  | object
  deriving DecidableEq, Repr

namespace Bracket

def close : Bracket → Char
  | .array => ']'
  | .object => '\x7d'

/-- The bracket that a character opens. -/
def ofOpen? (c : Char) : Option Bracket :=
  if c = '[' then some .array else if c = '\x7b' then some .object else none

def unfinished : Bracket → Unfinished
  | .array => .list
  | .object => .object

def expectedComma : Bracket → Problem
  | .array => .expectedCommaOrBracket
  | .object => .expectedCommaOrBrace

end Bracket

/-- Passes over the key in front of a value of an object. -/
def skipKey (b : Bracket) (c : Cursor) : Except Fault Cursor :=
  match b with
  | .array => .ok c
  | .object => do
    let c := c.skipSpace
    match c.rest with
    | [] => .error (c.fault (.endOfInput .object))
    | ch :: rest =>
      if ch = '"' then readColon (← skipString ⟨c.place.after ch, rest⟩)
      else .error (c.faultAhead .keyNotString)

/-- Where the reader is: in front of a value, behind one, or behind an opening bracket. -/
inductive SkipMode where
  | value
  | behind
  | opened
  deriving DecidableEq, Repr

/-- A place in a value that is passed over, with the brackets that are open, the innermost first. -/
structure SkipState where
  mode : SkipMode
  brackets : List Bracket
  cursor : Cursor
  deriving DecidableEq, Repr

namespace SkipState

/-- Each step makes this less: it takes a character, or it leaves the mode `opened`. -/
def weight (s : SkipState) : Nat :=
  2 * s.cursor.rest.length + if s.mode = .opened then 1 else 0

/-- One step in front of a value: a scalar, or the bracket that opens an array or an object. -/
def stepValue (brackets : List Bracket) (c : Cursor) : Except Fault SkipState :=
  let c := c.skipSpace
  match c.rest with
  | [] => .error (c.fault (.endOfInput .value))
  | ch :: rest =>
    let behind : Cursor := ⟨c.place.after ch, rest⟩
    match Bracket.ofOpen? ch with
    | some b => .ok ⟨.opened, b :: brackets, behind⟩
    | none => do return ⟨.behind, brackets, ← skipScalar ch c behind⟩

/-- One step inside the bracket `b`, behind a value of it or behind its opening: the end of it, or the way
to the next value. -/
def stepInside (afterValue : Bool) (b : Bracket) (brackets : List Bracket) (c : Cursor) :
    Except Fault SkipState :=
  let d := c.skipSpace
  match d.rest with
  | [] => .error (d.fault (.endOfInput b.unfinished))
  | ch :: rest =>
    let behind : Cursor := ⟨d.place.after ch, rest⟩
    if ch = b.close then .ok ⟨.behind, brackets, behind⟩
    else if !afterValue then do return ⟨.value, b :: brackets, ← skipKey b d⟩
    else if ch = ',' then do return ⟨.value, b :: brackets, ← skipKey b behind⟩
    else .error (d.faultAhead b.expectedComma)

/-- Passes over the rest of the value. -/
def run (s : SkipState) : Except Fault Cursor :=
  let next :=
    match s.mode, s.brackets with
    | .value, brackets => some (stepValue brackets s.cursor)
    | _, [] => none
    | mode, b :: brackets => some (stepInside (mode == SkipMode.behind) b brackets s.cursor)
  match next with
  | none => .ok s.cursor
  | some (.error e) => .error e
  | some (.ok s') =>
    if _h : s'.weight < s.weight then run s' else .error (s'.cursor.fault .expectedValue)
termination_by s.weight
decreasing_by exact _h

end SkipState

def skipValue (c : Cursor) : Except Fault Cursor :=
  SkipState.run ⟨.value, [], c⟩

end TagQuery.Json
