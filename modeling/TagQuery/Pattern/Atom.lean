import TagQuery.Number.Digit
import TagQuery.Pattern.Mode

/-! The smallest parts of patterns.

An `Atom` is a character, a kind of characters or a place.  Which atoms may stand where depends on the
mode.  Kinds, edges of words and the case of letters are known for ASCII alone, so that they can be used
only in patterns of bytes; and such a pattern must not match a part of a character, so that all it may name
are the bytes of ASCII. -/

namespace TagQuery.Pattern

inductive Atom where
  /-- A character; `asByte` says that it is written with two hexadecimal digits. -/
  | char (c : Char) (asByte : Bool)
  | any
  /-- A digit, a blank or a character of words, or anything else. -/
  | kind (negated : Bool)
  /-- The start or the end of the text or of a line. -/
  | edge
  /-- The start or the end of a word, or any other place. -/
  | wordEdge
  deriving DecidableEq, Repr

namespace Atom

def isAscii (c : Char) : Bool :=
  c.toNat < 128

/-- The atom may stand in a pattern, outside of classes. -/
def standsAlone (m : Mode) : Atom → Bool
  | .char c asByte => if m.ofBytes then isAscii c || !asByte else !m.ignoresCase
  | .any => !m.ofBytes
  | .kind negated => m.ofBytes && !negated
  | .edge => true
  | .wordEdge => m.ofBytes

def standsInClass (m : Mode) : Atom → Bool
  | .char c _ => if m.ofBytes then isAscii c else !m.ignoresCase
  | .kind negated => m.ofBytes && !negated
  | _ => false

end Atom

/-! ## Reading -/

def readHexDigits (m : Mode) : Nat → List Char → Option (List Char × List Char)
  | 0, cs => some ([], cs)
  | n + 1, cs =>
    match m.skip cs with
    | [] => none
    | d :: rest =>
      if (Number.digitValue? d).isSome then
        (readHexDigits m n rest).map fun r => (d :: r.1, r.2)
      else none

/-- Reads a character that is given by its code point. -/
def readCode (m : Mode) (digits : Nat) (cs : List Char) : Option (Char × List Char) := do
  let (ds, rest) ← readHexDigits m digits cs
  let n := Number.valueInBase 16 ds
  if n.isValidChar then return (Char.ofNat n, rest) else none

/-- Reads an escape behind its backslash.  A mark of ASCII stands for itself, but for the angles. -/
def readEscape (m : Mode) : List Char → Option (Atom × List Char)
  | [] => none
  | 'x' :: rest => (readCode m 2 rest).map fun r => (.char r.1 true, r.2)
  | 'u' :: rest => (readCode m 4 rest).map fun r => (.char r.1 false, r.2)
  | 'U' :: rest => (readCode m 8 rest).map fun r => (.char r.1 false, r.2)
  | c :: rest =>
    if "dsw".toList.contains c then some (.kind false, rest)
    else if "DSW".toList.contains c then some (.kind true, rest)
    else if "Az".toList.contains c then some (.edge, rest)
    else if "bB<>".toList.contains c then some (.wordEdge, rest)
    else
      match "afnrtv".toList.zip ['\x07', '\x0c', '\n', '\r', '\t', '\x0b'] |>.lookup c with
      | some c => some (.char c false, rest)
      | none => if Atom.isAscii c && !c.isAlphanum then some (.char c false, rest) else none

def readAtom (m : Mode) : List Char → Option (Atom × List Char)
  | [] => none
  | '\\' :: rest => readEscape m rest
  | '.' :: rest => some (.any, rest)
  | '^' :: rest | '$' :: rest => some (.edge, rest)
  | c :: rest => some (.char c false, rest)

def readClassAtom (m : Mode) : List Char → Option (Atom × List Char)
  | [] => none
  | '\\' :: rest => readEscape m rest
  | c :: rest => some (.char c false, rest)

end TagQuery.Pattern
