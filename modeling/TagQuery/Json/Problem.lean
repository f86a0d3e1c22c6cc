import TagQuery.Json.Basic
import TagQuery.Text.Shown

/-! What can be wrong with a JSON text, or with a JSON value that should be of some type. -/

namespace TagQuery.Json

/-- The kind of a value that is found where another is wanted. -/
inductive Found where
  | null
  | boolean (value : Bool)
  | number (value : Number)
  | string (text : String)
  | sequence
  | map
  deriving DecidableEq, Repr

def found : Json → Found
  | .null => .null
  | .boolean b => .boolean b
  | .number n => .number n
  | .string s => .string s
  | .array _ => .sequence
  | .object _ => .map

def Found.text : Found → String
  | .null => "null"
  | .boolean b => "boolean `" ++ (if b then "true" else "false") ++ "`"
  | .number n =>
    match n with
    | .whole .. => "integer `" ++ n.text ++ "`"
    | .binary _ => "floating point `" ++ n.text ++ "`"
  | .string s => "string " ++ Text.shown s
  | .sequence => "sequence"
  | .map => "map"

/-- What a text ends in the middle of. -/
inductive Unfinished where
  | value
  | string
  | list
  | object
  deriving DecidableEq, Repr

def Unfinished.text : Unfinished → String
  | .value => "a value"
  | .string => "a string"
  | .list => "a list"
  | .object => "an object"

/-- What is wrong. -/
inductive Problem where
  | endOfInput (unfinished : Unfinished)
  | expectedValue
  | expectedWord
  | expectedColon
  | expectedCommaOrBracket
  | expectedCommaOrBrace
  | trailingComma
  | trailingCharacters
  | keyNotString
  | invalidNumber
  | numberOutOfRange
  | invalidEscape
  | loneSurrogate
  | unfinishedSurrogate
  | controlCharacter
  | nestedTooDeep
  | wrongType (found : Found) (wanted : String)
  | duplicateField (name : String)
  | tooManyItems (count : Nat)
  deriving DecidableEq, Repr

def Problem.text : Problem → String
  | .endOfInput what => "EOF while parsing " ++ what.text
  | .expectedValue => "expected value"
  | .expectedWord => "expected ident"
  | .expectedColon => "expected `:`"
  | .expectedCommaOrBracket => "expected `,` or `]`"
  | .expectedCommaOrBrace => "expected `,` or `\x7d`"
  | .trailingComma => "trailing comma"
  | .trailingCharacters => "trailing characters"
  | .keyNotString => "key must be a string"
  | .invalidNumber => "invalid number"
  | .numberOutOfRange => "number out of range"
  | .invalidEscape => "invalid escape"
  | .loneSurrogate => "lone leading surrogate in hex escape"
  | .unfinishedSurrogate => "unexpected end of hex escape"
  | .controlCharacter => "control character (\\u0000-\\u001F) found while parsing a string"
  | .nestedTooDeep => "recursion limit exceeded"
  | .wrongType found wanted => "invalid type: " ++ found.text ++ ", expected " ++ wanted
  | .duplicateField name => "duplicate field `" ++ name ++ "`"
  | .tooManyItems count =>
    "invalid length " ++ Number.countText count ++ ", expected fewer elements in array"

/-- A line, counted from one, and the bytes of it that have been read. -/
structure Place where
  line : Nat
  column : Nat
  deriving DecidableEq, Repr

/-- What is wrong, and where in a text. -/
structure Fault where
  problem : Problem
  place : Place
  deriving DecidableEq, Repr

def Fault.text (f : Fault) : String :=
  f.problem.text ++ " at line " ++ Number.countText f.place.line
    ++ " column " ++ Number.countText f.place.column

end TagQuery.Json
