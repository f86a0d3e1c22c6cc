import TagQuery.Text.AsciiCase
import TagQuery.Vocabulary

/-! The operators of a condition.

A comparison takes one value, a test takes none.  Their names are the words that stand in a filter, in
any mix of case, and in a tree. -/

namespace TagQuery

/-- An operator that compares with a value. -/
inductive Comparison where
  | equals
  | notEqual
  | contains
  | notContain
  | startsWith
  | endsWith
  | notStartsWith
  | notEndsWith
  | greaterOrEqualThan
  | lessOrEqualThan
  | greaterThan
  | lessThan
  deriving DecidableEq, Repr

/-- An operator that looks at the tag alone. -/
inductive Test where
  | isEmpty
  | notEmpty
  | isBlank
  | notBlank
  deriving DecidableEq, Repr

inductive Operator where
  | comparison (op : Comparison)
  | test (op : Test)
  deriving DecidableEq, Repr

def Comparison.all : List Comparison :=
  [.equals, .notEqual, .contains, .notContain, .startsWith, .endsWith, .notStartsWith,
    .notEndsWith, .greaterOrEqualThan, .lessOrEqualThan, .greaterThan, .lessThan]

def Comparison.name : Comparison → String
  | .equals => "EQUALS"
  | .notEqual => "NOT_EQUAL"
  | .contains => "CONTAINS"
  | .notContain => "NOT_CONTAIN"
  | .startsWith => "STARTS_WITH"
  | .endsWith => "ENDS_WITH"
  | .notStartsWith => "NOT_STARTS_WITH"
  | .notEndsWith => "NOT_ENDS_WITH"
  | .greaterOrEqualThan => "GREATER_OR_EQUAL_THAN"
  | .lessOrEqualThan => "LESS_OR_EQUAL_THAN"
  | .greaterThan => "GREATER_THAN"
  | .lessThan => "LESS_THAN"

def Test.all : List Test :=
  [.isEmpty, .notEmpty, .isBlank, .notBlank]

def Test.name : Test → String
  | .isEmpty => "IS_EMPTY"
  | .notEmpty => "NOT_EMPTY"
  | .isBlank => "IS_BLANK"
  | .notBlank => "NOT_BLANK"

namespace Operator

/-- The comparisons, then the tests. -/
def all : List Operator :=
  Comparison.all.map .comparison ++ Test.all.map .test

/-- The name in upper case. -/
def name : Operator → String
  | .comparison op => op.name
  | .test op => op.name

/-- The operator with this name, in any mix of ASCII case. -/
def ofName? (name : String) : Option Operator :=
  all.find? fun op => op.name.toList == Text.upper name.toList

def isTest : Operator → Bool
  | .comparison _ => false
  | .test _ => true

end Operator

instance : Vocabulary Operator where
  all := Operator.all
  spelling := Operator.name
  mem_all op := by
    cases op with
    | comparison op => cases op <;> decide
    | test op => cases op <;> decide
  spelling_inj := by decide

end TagQuery
