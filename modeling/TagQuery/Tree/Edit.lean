import TagQuery.Canonical
import TagQuery.Tree.Decode

/-! Step-by-step changes of a tree.

An `Edit` is one change; `Edit.apply` makes it or says why it cannot be made, in which case the tree stays
what it is. -/

namespace TagQuery

/-- Where a tree comes from. -/
inductive TreeSource where
  /-- A JSON text, decoded as it is read. -/
  | json (text : String)
  /-- A JSON text, decoded from its finished value. -/
  | value (text : String)
  /-- The text of a filter. -/
  | filter (text : String)
  deriving DecidableEq, Repr

/-- Why a source has no tree, or a change cannot be made. -/
inductive EditError where
  | decode (error : DecodeError)
  | filter (error : FilterError)
  | noSuchElement
  | notANumber
  deriving DecidableEq, Repr

def TreeSource.tree : TreeSource → Except EditError Tree
  | .json text => (Tree.ofText text).mapError .decode
  | .value text => (Tree.ofTextValue text).mapError .decode
  | .filter text => (Filter.read text).map Filter.toTree |>.mapError .filter

/-- The number that a text stands for in JSON. -/
def Number.ofText? (text : String) : Option Number :=
  match Json.read text with
  | .ok (.number n) => some n
  | _ => none

/-- What a leaf that is built compares with. -/
inductive LeafContent where
  | string (text : String)
  | number (value : Number)
  | boolean (value : Bool)
  | tag (key text : String)
  | bare
  | keyed (key : String)
  deriving DecidableEq, Repr

def Tree.ofContent (entity : Open Side) (name : String) (operator : Open LeafOperator)
    (content : LeafContent) : Tree :=
  let leaf := Tree.leaf entity name operator
  match content with
  | .string text => leaf.withString text
  | .number n => leaf.withNumber n
  | .boolean b => leaf.withBoolean b
  | .tag key text => leaf.withTag key text
  | .bare => leaf
  | .keyed key => leaf.withKey key

def Tree.clearField (t : Tree) : Field → Tree
  | .kind => ⟨{ t.label with kind := none }, t.elements⟩
  | .connective => ⟨{ t.label with connective := none }, t.elements⟩
  | .elements => ⟨t.label, []⟩
  | .name => ⟨{ t.label with name := none }, t.elements⟩
  | .entity => ⟨{ t.label with entity := none }, t.elements⟩
  | .operator => ⟨{ t.label with operator := none }, t.elements⟩
  | .key => ⟨{ t.label with key := none }, t.elements⟩
  | .stringValue => ⟨{ t.label with stringValue := none }, t.elements⟩
  | .numberValue => ⟨{ t.label with numberValue := none }, t.elements⟩
  | .booleanValue => ⟨{ t.label with booleanValue := none }, t.elements⟩
  | .value => ⟨{ t.label with value := none }, t.elements⟩

/-- The tree with a field read from a text. -/
def Tree.setText (t : Tree) (f : Field) (text : String) : Except EditError Tree :=
  match f.type? with
  | some .string => .ok (t.setField f (.string text))
  | some .boolean => .ok (t.setField f (.boolean (text == "true")))
  | some .number =>
    match Number.ofText? text with
    | some n => .ok (t.setField f (.number n))
    | none => .error .notANumber
  | _ => .ok t

inductive Edit where
  /-- Takes another tree. -/
  | load (source : TreeSource)
  /-- Takes a new leaf. -/
  | build (entity : Open Side) (name : String) (operator : Open LeafOperator) (content : LeafContent)
  /-- Puts the tree into a group, with other trees behind it. -/
  | group (connective : Open Connective) (others : List TreeSource)
  /-- Puts trees behind the elements. -/
  | push (others : List TreeSource)
  /-- Takes an element. -/
  | pick (index : Nat)
  /-- Sets a field, or clears it. -/
  | set (field : Field) (text : Option String)
  /-- Takes the tree as it is sent back once it has been read. -/
  | canonical
  deriving DecidableEq, Repr

/-- The tree behind a change, or why the change cannot be made. -/
def Edit.apply (t : Tree) : Edit → Except EditError Tree
  | .load source => source.tree
  | .build entity name operator content => .ok (.ofContent entity name operator content)
  | .group connective others => do
    return .group connective (t :: (← others.mapM TreeSource.tree))
  | .push others => do return ⟨t.label, t.elements ++ (← others.mapM TreeSource.tree)⟩
  | .pick index =>
    match t.elements[index]? with
    | some e => .ok e
    | none => .error .noSuchElement
  | .set field none => .ok (t.clearField field)
  | .set field (some text) => t.setText field text
  | .canonical => (t.read.map Filter.toTree).mapError .filter

end TagQuery
