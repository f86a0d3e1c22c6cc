import TagQuery.Filter.Basic
import TagQuery.Text.Boolean

/-! Filters as text.

`Filter.chars` prints a filter with single blanks between its words, operators and connectives in upper
case, strings and tag keys in single quotes, and brackets exactly where the filter has them. -/

namespace TagQuery

/-- A text in single quotes, with a backslash before each quote and backslash of its own. -/
def quoted (cs : List Char) : List Char :=
  '\'' :: cs.flatMap (fun c => if c = '\'' ∨ c = '\\' then ['\\', c] else [c]) ++ ['\'']

def Value.chars : Value → List Char
  | .string text => quoted text.toList
  | .number value => value.chars
  | .boolean value => (Text.booleanText value).toList

/-- The text of a value as it stands in a filter. -/
def Value.text (v : Value) : String :=
  String.ofList v.chars

def Entity.chars (e : Entity) : List Char :=
  e.name.toList
    ++ (match e.key with | some key => ':' :: quoted key.toList | none => [])
    ++ (match e.origin with | some origin => '@' :: origin.key.toList | none => [])

def Condition.chars : Condition → List Char
  | .compare e op v => e.chars ++ ' ' :: op.name.toList ++ ' ' :: v.chars
  | .test e op => e.chars ++ ' ' :: op.name.toList

mutual

def Filter.chars : Filter → List Char
  | .single c => c.chars
  | .or c rest => c.chars ++ " OR ".toList ++ rest.chars

def Chain.chars : Chain → List Char
  | .single o => o.chars
  | .and o rest => o.chars ++ " AND ".toList ++ rest.chars

def Operand.chars : Operand → List Char
  | .condition c => c.chars
  | .group f => '(' :: f.chars ++ [')']

end

def Filter.text (f : Filter) : String :=
  String.ofList f.chars

def Operand.text (o : Operand) : String :=
  String.ofList o.chars

end TagQuery
