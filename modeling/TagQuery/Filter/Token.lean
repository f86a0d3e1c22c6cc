import TagQuery.Filter.Printer

/-! The tokens of a filter. -/

namespace TagQuery

inductive Token where
  | identifier (name : String)
  | literal (value : Value)
  | operator (op : Operator)
  | and
  | or
  | openBracket
  | closeBracket
  | colon
  | at
  deriving DecidableEq, Repr

namespace Token

/-- The token can stand behind a comparison. -/
def isLiteral : Token → Bool
  | .literal _ => true
  | _ => false

/-- The token as a message shows it. -/
def describe : Token → String
  | .identifier name => "'" ++ name ++ "'"
  | .literal (.string text) => "string '" ++ text ++ "'"
  | .literal (.number value) => "number " ++ value.text
  | .literal (.boolean value) => "boolean " ++ Text.booleanText value
  | .operator op => op.name
  | .and => "AND"
  | .or => "OR"
  | .openBracket => "'('"
  | .closeBracket => "')'"
  | .colon => "':'"
  | .at => "'@'"

end Token

/-- A token and the byte at which it starts. -/
structure Lexeme where
  token : Token
  position : Nat
  deriving DecidableEq, Repr

end TagQuery
