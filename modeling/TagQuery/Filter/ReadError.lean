import TagQuery.Filter.Token

/-! What can be wrong with the text of a filter.

Each error names its cause, its `kind` and the byte it is found at (`position?`); `message` is the only
place where its wording is decided. -/

namespace TagQuery

/-- How deep brackets may be nested. -/
def maxDepth : Nat := 64

/-- How many conditions a filter may have. -/
def maxConditions : Nat := 1024

/-- The stages of reading and storing a filter at which an error can arise. -/
inductive ErrorKind where
  | lexical
  | syntactic
  | semantic
  | mapping
  deriving DecidableEq, Repr

/-- What the grammar has at a place. -/
inductive Wanted where
  | entityName
  | tagKey
  | origin
  | operator
  | value
  | connectiveOrClose
  | connectiveOrEnd
  deriving DecidableEq, Repr

def Wanted.text : Wanted → String
  | .entityName => "an entity name"
  | .tagKey => "a tag key"
  | .origin => "an origin (src, dest or na)"
  | .operator => "an operator"
  | .value => "a string, number or boolean value"
  | .connectiveOrClose => "AND, OR or ')'"
  | .connectiveOrEnd => "AND, OR or end of expression"

/-- Why a text is not a filter. -/
inductive ReadError where
  | unexpectedCharacter (character : Char) (position : Nat)
  | unterminatedString (position : Nat)
  | invalidNumber (literal : String) (position : Nat)
  | emptyFilter
  | unexpectedToken (found : Token) (wanted : Wanted) (position : Nat)
  | unexpectedEnd (wanted : Wanted) (position : Nat)
  | unclosedBracket (position : Nat)
  | nestedTooDeep (position : Nat)
  | tooManyConditions (position : Nat)
  | unknownOrigin (word : String) (position : Nat)
  | unknownOperator (word : String) (suggestion : Option Operator) (position : Nat)
  | wrongArity (op : Operator) (position : Nat)
  deriving DecidableEq, Repr

namespace ReadError

def kind : ReadError → ErrorKind
  | .unexpectedCharacter .. | .unterminatedString .. | .invalidNumber .. => .lexical
  | .unknownOperator .. | .wrongArity .. => .semantic
  | _ => .syntactic

/-- The byte at which the error is found. -/
def position? : ReadError → Option Nat
  | .emptyFilter => none
  | .unexpectedCharacter _ p | .unterminatedString p | .invalidNumber _ p
  | .unexpectedToken _ _ p | .unexpectedEnd _ p | .unclosedBracket p | .nestedTooDeep p
  | .tooManyConditions p | .unknownOrigin _ p | .unknownOperator _ _ p | .wrongArity _ p => some p

def placeText (position : Nat) : String :=
  " at position " ++ Number.countText position

def message : ReadError → String
  | .unexpectedCharacter c p => "unexpected character '" ++ c.toString ++ "'" ++ placeText p
  | .unterminatedString p => "unterminated string starting" ++ placeText p
  | .invalidNumber literal p => "invalid number '" ++ literal ++ "'" ++ placeText p
  | .emptyFilter => "filter expression is empty"
  | .unexpectedToken found wanted p =>
    "unexpected token " ++ found.describe ++ placeText p ++ ", expected " ++ wanted.text
  | .unexpectedEnd wanted p =>
    "unexpected end of expression" ++ placeText p ++ ", expected " ++ wanted.text
  | .unclosedBracket p => "unclosed parenthesis opened" ++ placeText p
  | .nestedTooDeep p =>
    "expression nested deeper than " ++ Number.countText maxDepth ++ " levels" ++ placeText p
  | .tooManyConditions p =>
    "filter has more than " ++ Number.countText maxConditions
      ++ " expressions, limit exceeded" ++ placeText p
  | .unknownOrigin word p =>
    "invalid entity origin '" ++ word ++ "'" ++ placeText p ++ ", expected one of src, dest, na"
  | .unknownOperator word suggestion p =>
    "unknown operator '" ++ word ++ "'" ++ placeText p ++
      match suggestion with
      | some op => " (did you mean " ++ op.name ++ "?)"
      | none => ""
  | .wrongArity op p =>
    "operator " ++ op.name ++ placeText p ++
      if op.isTest then " does not accept a value" else " requires a value"

end ReadError

end TagQuery
