import TagQuery.Json.Printer
import TagQuery.Tree.Basic

/-! Trees as JSON.

A node is an object with its fields in a fixed order; fields that are not set and empty lists of elements
are left out. -/

namespace TagQuery

inductive Field where
  | kind
  | connective
  | elements
  | name
  | entity
  | operator
  | key
  | stringValue
  | numberValue
  | booleanValue
  | value
  deriving DecidableEq, Repr

namespace Field

/-- The fields in the order in which they are written. -/
def all : List Field :=
  [.kind, .connective, .elements, .name, .entity, .operator, .key, .stringValue, .numberValue,
    .booleanValue, .value]

/-- The key of a field. -/
def text : Field → String
  | .kind => "type"
  | .connective => "logicalOperator"
  | .elements => "elements"
  | .name => "name"
  | .entity => "entity"
  | .operator => "operator"
  | .key => "key"
  | .stringValue => "stringValue"
  | .numberValue => "numberValue"
  | .booleanValue => "booleanValue"
  | .value => "value"

end Field

instance : Vocabulary Field where
  all := Field.all
  spelling := Field.text
  mem_all f := by cases f <;> decide
  spelling_inj := by decide

/-- The value of a field, if it is set; `elements` is the value of the elements. -/
def Label.field? (l : Label) (elements : Option Json) : Field → Option Json
  | .kind => l.kind.map fun k => .string k.text
  | .connective => l.connective.map fun c => .string c.text
  | .elements => elements
  | .name => l.name.map .string
  | .entity => l.entity.map fun e => .string e.text
  | .operator => l.operator.map fun op => .string op.text
  | .key => l.key.map .string
  | .stringValue => l.stringValue.map .string
  | .numberValue => l.numberValue.map .number
  | .booleanValue => l.booleanValue.map .boolean
  | .value => l.value

/-- The members of a node. -/
def Label.members (l : Label) (elements : Option Json) : List (String × Json) :=
  Field.all.filterMap fun f => (l.field? elements f).map fun v => (f.text, v)

namespace Tree

mutual

def toJson : Tree → Json
  | ⟨label, []⟩ => .object (label.members none)
  | ⟨label, t :: ts⟩ => .object (label.members (some (.array (t.toJson :: toJsons ts))))

def toJsons : List Tree → List Json
  | [] => []
  | t :: ts => t.toJson :: toJsons ts

end

/-- The text of a tree. -/
def text (layout : Json.Layout) (t : Tree) : String :=
  t.toJson.text layout

end Tree

end TagQuery
