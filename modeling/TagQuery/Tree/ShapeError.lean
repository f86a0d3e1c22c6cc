import TagQuery.Filter.ReadError
import TagQuery.Tree.Basic

/-! What can be wrong with a tree that should stand for a filter. -/

namespace TagQuery

/-- How many nodes a tree may have. -/
def maxNodes : Nat := 2 * maxConditions

/-- The fields that a leaf must have. -/
inductive LeafField where
  | name
  | entity
  | operator
  deriving DecidableEq, Repr

def LeafField.text : LeafField → String
  | .name => "name"
  | .entity => "entity"
  | .operator => "operator"

/-- Why a tree stands for no filter. -/
inductive ShapeError where
  | unknownKind (found : Option String)
  | unknownConnective (found : Option String)
  | wrongOperator (name : String) (hasValue : Bool)
  | unknownEntity (found : String)
  | missingField (field : LeafField)
  | conflictingValues (name : String) (count : Nat)
  | emptyAnd
  | shortOr (count : Nat)
  | orFirstInOr
  | notPlainName (name : String)
  | tooLarge (nodes : Nat)
  deriving DecidableEq, Repr

namespace ShapeError

/-- The text of a field that may be absent. -/
def foundText (found : Option String) : String :=
  found.getD "<missing>"

def message : ShapeError → String
  | .unknownKind found => "unsupported tag filter expression of type " ++ foundText found
  | .unknownConnective found => "invalid logical operator " ++ foundText found
  | .wrongOperator name hasValue =>
    "invalid operator " ++ name ++ ": not a supported tag filter operator for a "
      ++ if hasValue then "comparison" else "unary operation"
  | .unknownEntity found => "invalid tag filter entity " ++ found
  | .missingField field => "tag filter is missing required field " ++ field.text
  | .conflictingValues name count =>
    "tag filter " ++ name ++ " has " ++ Number.countText count
      ++ " values, at most one of stringValue, numberValue and booleanValue is allowed"
  | .emptyAnd => "at least one element is expected for logical and"
  | .shortOr count =>
    "at least two elements are expected for logical or, found " ++ Number.countText count
  | .orFirstInOr => "logical or is not allowed for first element of a logical or"
  | .notPlainName name => "invalid tag filter name '" ++ name ++ "': not a plain entity name"
  | .tooLarge nodes =>
    "tag filter tree has " ++ Number.countText nodes ++ " leaves, at most "
      ++ Number.countText maxNodes ++ " are allowed"

end ShapeError

end TagQuery
