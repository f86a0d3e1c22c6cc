import TagQuery.Filter.Operator
import TagQuery.Filter.Origin

/-! The words of a tree, and what they are in a filter.

Trees have a vocabulary of their own.  A filter writes its origins with other words and may leave them out,
and it tells operators that take a value from those that take none.  Tables lead from a filter to a tree and
back: they undo each other (`Side.ofOrigin_origin`, `LeafOperator.comparison?_eq_some_iff`,
`LeafOperator.test?_eq_some_iff`), and operators keep their names (`LeafOperator.spelling_of`). -/

namespace TagQuery

/-- What a node says that it is. -/
inductive NodeKind where
  | expression
  | tagFilter
  deriving DecidableEq, Repr

/-- How a group joins its elements. -/
inductive Connective where
  | and
  | or
  deriving DecidableEq, Repr

/-- The side of a call that a leaf is about. -/
inductive Side where
  | source
  | destination
  | notApplicable
  deriving DecidableEq, Repr

/-- The operator of a leaf, with a value or without. -/
inductive LeafOperator where
  | equals
  | notEqual
  | contains
  | notContain
  | startsWith
  | endsWith
  | notStartsWith
  | notEndsWith
  | greaterOrEqualThan
  | lessOrEqualThan
  | greaterThan
  | lessThan
  | isEmpty
  | notEmpty
  | isBlank
  | notBlank
  deriving DecidableEq, Repr

def NodeKind.text : NodeKind → String
  | .expression => "EXPRESSION"
  | .tagFilter => "TAG_FILTER"

def Connective.text : Connective → String
  | .and => "AND"
  | .or => "OR"

def Side.text : Side → String
  | .source => "SOURCE"
  | .destination => "DESTINATION"
  | .notApplicable => "NOT_APPLICABLE"

def LeafOperator.text : LeafOperator → String
  | .equals => "EQUALS"
  | .notEqual => "NOT_EQUAL"
  | .contains => "CONTAINS"
  | .notContain => "NOT_CONTAIN"
  | .startsWith => "STARTS_WITH"
  | .endsWith => "ENDS_WITH"
  | .notStartsWith => "NOT_STARTS_WITH"
  | .notEndsWith => "NOT_ENDS_WITH"
  | .greaterOrEqualThan => "GREATER_OR_EQUAL_THAN"
  | .lessOrEqualThan => "LESS_OR_EQUAL_THAN"
  | .greaterThan => "GREATER_THAN"
  | .lessThan => "LESS_THAN"
  | .isEmpty => "IS_EMPTY"
  | .notEmpty => "NOT_EMPTY"
  | .isBlank => "IS_BLANK"
  | .notBlank => "NOT_BLANK"

instance : Vocabulary NodeKind where
  all := [.expression, .tagFilter]
  spelling := NodeKind.text
  mem_all k := by cases k <;> decide
  spelling_inj := by decide

instance : Vocabulary Connective where
  all := [.and, .or]
  spelling := Connective.text
  mem_all c := by cases c <;> decide
  spelling_inj := by decide

instance : Vocabulary Side where
  all := [.source, .destination, .notApplicable]
  spelling := Side.text
  mem_all s := by cases s <;> decide
  spelling_inj := by decide

instance : Vocabulary LeafOperator where
  all := [.equals, .notEqual, .contains, .notContain, .startsWith, .endsWith, .notStartsWith,
    .notEndsWith, .greaterOrEqualThan, .lessOrEqualThan, .greaterThan, .lessThan, .isEmpty, .notEmpty,
    .isBlank, .notBlank]
  spelling := LeafOperator.text
  mem_all w := by cases w <;> decide
  spelling_inj := by decide

/-- The operator takes no value. -/
def LeafOperator.isTest : LeafOperator → Bool
  | .isEmpty | .notEmpty | .isBlank | .notBlank => true
  | _ => false

/-! ## From a filter to a tree -/

/-- The side that is sent for an origin; where none is written it is the destination. -/
def Side.ofOrigin : Option Origin → Side
  | some .source => .source
  | some .destination | none => .destination
  | some .notApplicable => .notApplicable

namespace LeafOperator

def ofComparison : Comparison → LeafOperator
  | .equals => .equals
  | .notEqual => .notEqual
  | .contains => .contains
  | .notContain => .notContain
  | .startsWith => .startsWith
  | .endsWith => .endsWith
  | .notStartsWith => .notStartsWith
  | .notEndsWith => .notEndsWith
  | .greaterOrEqualThan => .greaterOrEqualThan
  | .lessOrEqualThan => .lessOrEqualThan
  | .greaterThan => .greaterThan
  | .lessThan => .lessThan

def ofTest : Test → LeafOperator
  | .isEmpty => .isEmpty
  | .notEmpty => .notEmpty
  | .isBlank => .isBlank
  | .notBlank => .notBlank

/-- The operator that is sent. -/
def of : Operator → LeafOperator
  | .comparison op => ofComparison op
  | .test op => ofTest op

end LeafOperator

/-! ## From a tree to a filter -/

def Side.origin : Side → Origin
  | .source => .source
  | .destination => .destination
  | .notApplicable => .notApplicable

namespace LeafOperator

/-- The comparison, if the operator takes a value. -/
def comparison? : LeafOperator → Option Comparison
  | .equals => some .equals
  | .notEqual => some .notEqual
  | .contains => some .contains
  | .notContain => some .notContain
  | .startsWith => some .startsWith
  | .endsWith => some .endsWith
  | .notStartsWith => some .notStartsWith
  | .notEndsWith => some .notEndsWith
  | .greaterOrEqualThan => some .greaterOrEqualThan
  | .lessOrEqualThan => some .lessOrEqualThan
  | .greaterThan => some .greaterThan
  | .lessThan => some .lessThan
  | .isEmpty | .notEmpty | .isBlank | .notBlank => none

/-- The test, if the operator takes no value. -/
def test? : LeafOperator → Option Test
  | .isEmpty => some .isEmpty
  | .notEmpty => some .notEmpty
  | .isBlank => some .isBlank
  | .notBlank => some .notBlank
  | _ => none

end LeafOperator

/-! ## The tables agree -/

@[simp] theorem Side.origin_ofOrigin (o : Option Origin) :
    (Side.ofOrigin o).origin = o.getD .destination := by
  rcases o with _ | (_ | _ | _) <;> rfl

@[simp] theorem Side.ofOrigin_origin (s : Side) : Side.ofOrigin (some s.origin) = s := by
  cases s <;> rfl

theorem Side.spelling_origin (s : Side) : Vocabulary.spelling s.origin = Vocabulary.spelling s := by
  cases s <;> rfl

namespace LeafOperator

@[simp] theorem comparison?_ofComparison (op : Comparison) :
    (ofComparison op).comparison? = some op := by
  cases op <;> rfl

@[simp] theorem test?_ofTest (op : Test) : (ofTest op).test? = some op := by
  cases op <;> rfl

@[simp] theorem comparison?_ofTest (op : Test) : (ofTest op).comparison? = none := by
  cases op <;> rfl

@[simp] theorem test?_ofComparison (op : Comparison) : (ofComparison op).test? = none := by
  cases op <;> rfl

theorem comparison?_eq_some_iff {w : LeafOperator} {op : Comparison} :
    w.comparison? = some op ↔ w = ofComparison op := by
  constructor
  · intro h
    cases w <;> cases h <;> rfl
  · rintro rfl
    exact comparison?_ofComparison op

theorem test?_eq_some_iff {w : LeafOperator} {op : Test} : w.test? = some op ↔ w = ofTest op := by
  constructor
  · intro h
    cases w <;> cases h <;> rfl
  · rintro rfl
    exact test?_ofTest op

@[simp] theorem isTest_of (op : Operator) : (of op).isTest = op.isTest := by
  rcases op with op | op <;> cases op <;> rfl

/-- Every operator of a leaf stands for one of a filter. -/
theorem exists_of (w : LeafOperator) : ∃ op, w = of op := by
  cases hcomparison : w.comparison? with
  | some op => exact ⟨.comparison op, comparison?_eq_some_iff.1 hcomparison⟩
  | none =>
    cases htest : w.test? with
    | some op => exact ⟨.test op, test?_eq_some_iff.1 htest⟩
    | none => cases w <;> simp [comparison?, test?] at hcomparison htest

/-- Operators keep their names. -/
theorem spelling_of (op : Operator) : Vocabulary.spelling (of op) = Vocabulary.spelling op := by
  rcases op with op | op <;> cases op <;> rfl

end LeafOperator

end TagQuery
