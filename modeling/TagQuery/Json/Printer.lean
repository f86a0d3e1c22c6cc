import TagQuery.Json.Basic

/-! JSON values as text.

The compact layout has no blanks; the indented one puts each item and member on a line of its own, two
blanks further in than what holds it.  In strings only a quote, a backslash and the controls below `U+0020`
are escaped. -/

namespace TagQuery.Json

/-- How a value is laid out. -/
inductive Layout where
  | compact
  | indented
  deriving DecidableEq, Repr

/-- Four hexadecimal digits in lower case. -/
def hexDigits (n : Nat) : List Char :=
  let ds := Nat.toDigits 16 n
  List.replicate (4 - ds.length) '0' ++ ds

/-- A character as it stands in a string. -/
def escapedChar (c : Char) : List Char :=
  if c = '"' ∨ c = '\\' then ['\\', c]
  else if c = '\x08' then ['\\', 'b']
  else if c = '\x0c' then ['\\', 'f']
  else if c = '\n' then ['\\', 'n']
  else if c = '\r' then ['\\', 'r']
  else if c = '\t' then ['\\', 't']
  else if c.toNat < 32 then '\\' :: 'u' :: hexDigits c.toNat
  else [c]

def stringChars (cs : List Char) : List Char :=
  '"' :: cs.flatMap escapedChar ++ ['"']

namespace Layout

/-- What stands before an item or a closing bracket at a level. -/
def lineBreak : Layout → Nat → List Char
  | .compact, _ => []
  | .indented, level => '\n' :: List.replicate (2 * level) ' '

/-- What stands between a key and its value. -/
def colon : Layout → List Char
  | .compact => [':']
  | .indented => [':', ' ']

end Layout

mutual

/-- The text of a value that is nested `level` deep. -/
def chars (layout : Layout) (level : Nat) : Json → List Char
  | .null => "null".toList
  | .boolean true => "true".toList
  | .boolean false => "false".toList
  | .number n => n.chars
  | .string s => stringChars s.toList
  | .array [] => ['[', ']']
  | .array (x :: xs) =>
    '[' :: layout.lineBreak (level + 1) ++ chars layout (level + 1) x
      ++ itemChars layout (level + 1) xs ++ layout.lineBreak level ++ [']']
  | .object [] => ['\x7b', '\x7d']
  | .object ((k, v) :: ms) =>
    '\x7b' :: layout.lineBreak (level + 1) ++ stringChars k.toList ++ layout.colon
      ++ chars layout (level + 1) v ++ memberChars layout (level + 1) ms
      ++ layout.lineBreak level ++ ['\x7d']

def itemChars (layout : Layout) (level : Nat) : List Json → List Char
  | [] => []
  | x :: xs => ',' :: layout.lineBreak level ++ chars layout level x ++ itemChars layout level xs

def memberChars (layout : Layout) (level : Nat) : List (String × Json) → List Char
  | [] => []
  | (k, v) :: ms =>
    ',' :: layout.lineBreak level ++ stringChars k.toList ++ layout.colon
      ++ chars layout level v ++ memberChars layout level ms

end

def text (layout : Layout) (v : Json) : String :=
  String.ofList (v.chars layout 0)

end TagQuery.Json
