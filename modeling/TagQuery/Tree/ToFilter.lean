import TagQuery.Filter.Scanner
import TagQuery.Tree.ShapeError

/-! The filter of a tree.

Reading a tree gives a filter in canonical form: brackets stand round each group inside another one and
round a group at the root, groups of one element are left out, an `AND` inside an `AND` is merged into it,
and each tag has an origin.  A tree that stands for no filter is refused with the first error, a node
before its elements and the elements from left to right. -/

namespace TagQuery

/-- What a node stands for, before it is put into what is around it. -/
inductive Part where
  | condition (c : Condition)
  | chain (c : Chain)
  | filter (f : Filter)
  deriving DecidableEq, Repr

namespace Part

/-- The part as one operand: a condition stays as it is, a group gets brackets. -/
def toOperand : Part → Operand
  | .condition c => .condition c
  | .chain c => .group (.single c)
  | .filter f => .group f

/-- The part as operands of a chain that it stands in. -/
def toOperands : Part → List Operand
  | .chain c => c.operands
  | p => [p.toOperand]

end Part

namespace Label

def leafValue (l : Label) : Option Value :=
  match l.tagValue, l.numberValue, l.booleanValue with
  | some text, _, _ => some (.string text)
  | none, some n, _ => some (.number n)
  | none, none, b => b.map .boolean

def leafName (l : Label) : Except ShapeError String :=
  match l.name with
  | none => .error (.missingField .name)
  | some name => if isPlainName name then .ok name else .error (.notPlainName name)

def leafOrigin (l : Label) : Except ShapeError Origin :=
  match l.entity with
  | none => .error (.missingField .entity)
  | some (.known side) => .ok side.origin
  | some (.other found) => .error (.unknownEntity found)

def leafOperator (l : Label) : Except ShapeError (Open LeafOperator) :=
  match l.operator with
  | none => .error (.missingField .operator)
  | some op => .ok op

/-- The condition on a tag: a value takes a comparison, no value takes a test. -/
def conditionOn (entity : Entity) (operator : Open LeafOperator) :
    Option Value → Except ShapeError Condition
  | some v =>
    match operator.word?.bind LeafOperator.comparison? with
    | some op => .ok (.compare entity op v)
    | none => .error (.wrongOperator operator.text true)
  | none =>
    match operator.word?.bind LeafOperator.test? with
    | some op => .ok (.test entity op)
    | none => .error (.wrongOperator operator.text false)

/-- The condition that a leaf stands for. -/
def condition (l : Label) : Except ShapeError Condition := do
  let name ← l.leafName
  let origin ← l.leafOrigin
  let operator ← l.leafOperator
  if 1 < l.typedValueCount then .error (.conflictingValues name l.typedValueCount)
  else conditionOn ⟨name, l.key, some origin⟩ operator l.leafValue

end Label

/-- The chain of all the operands that parts make up; there has to be one. -/
def Part.joinAnd (parts : List Part) : Except ShapeError Part :=
  match parts.flatMap Part.toOperands with
  | [] => .error .emptyAnd
  | o :: os => .ok (.chain (.ofOperands o os))

/-- The alternative that a part is. -/
def Part.toChain (p : Part) : Chain :=
  .single p.toOperand

/-- The parts of elements that are read in order. -/
def Part.all : List (Except ShapeError Part) → Except ShapeError (List Part)
  | [] => .ok []
  | r :: rs => do
    let p ← r
    let ps ← Part.all rs
    return p :: ps

/-- The part that a group joined by `AND` stands for. -/
def Part.ofAnd : List (Except ShapeError Part) → Except ShapeError Part
  | [r] => r
  | rs => do Part.joinAnd (← Part.all rs)

/-- The part that a group joined by `OR` stands for. -/
def Part.ofOr : List (Except ShapeError Part) → Except ShapeError Part
  | r :: s :: rs => do
    match ← r with
    | .filter _ => .error .orFirstInOr
    | p =>
      let ps ← Part.all (s :: rs)
      return .filter (.ofChains p.toChain (ps.map Part.toChain))
  | rs => .error (.shortOr rs.length)

/-- The part that a node stands for, from what its elements stand for. -/
def Label.part (l : Label) (elements : List (Except ShapeError Part)) : Except ShapeError Part :=
  match l.kind with
  | some (.known .expression) =>
    match l.connective with
    | some (.known .and) => Part.ofAnd elements
    | some (.known .or) => Part.ofOr elements
    | c => .error (.unknownConnective (c.map Open.text))
  | some (.known .tagFilter) => return .condition (← l.condition)
  | k => .error (.unknownKind (k.map Open.text))

namespace Tree

mutual

def part : Tree → Except ShapeError Part
  | ⟨label, elements⟩ => label.part (parts elements)

def parts : List Tree → List (Except ShapeError Part)
  | [] => []
  | t :: ts => t.part :: parts ts

end

/-- The filter that a tree stands for. -/
def toFilter (t : Tree) : Except ShapeError Filter :=
  if maxNodes < t.nodeCount then .error (.tooLarge t.nodeCount)
  else do return .ofOperand (← t.part).toOperand

end Tree

end TagQuery
