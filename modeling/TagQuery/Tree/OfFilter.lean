import TagQuery.Filter.Basic
import TagQuery.Tree.Basic

/-! The tree of a filter.

Chains become groups with any number of elements; a chain of one is its only operand, and brackets leave
no node of their own.  A group joined by `AND` inside another one is merged into it, and so is a group
joined by `OR` where it is the first alternative of another one.  A tag without an origin is sent as one
of the destination. -/

namespace TagQuery

/-- The leaf of a condition. -/
def Condition.toTree (c : Condition) : Tree :=
  let e := c.entity
  let leaf := Tree.leaf (.known (.ofOrigin e.origin)) e.name (.known (.of c.operator))
  match c.value?, e.key with
  | some (.string text), some key => leaf.withTag key text
  | some (.string text), none => leaf.withString text
  | some (.number n), key => (leaf.withNumber n).withKey key
  | some (.boolean b), key => (leaf.withBoolean b).withKey key
  | none, key => leaf.withKey key

/-- The elements of a group joined with `c`, or else the tree itself. -/
def Tree.merge (c : Connective) (t : Tree) : List Tree :=
  if t.label.isGroupOf c then t.elements else [t]

mutual

def Filter.toTree : Filter → Tree
  | .single c => c.toTree
  | .or c rest => .group (.known .or) (c.toTree.merge .or ++ rest.toTrees)

/-- The trees of the alternatives. -/
def Filter.toTrees : Filter → List Tree
  | .single c => [c.toTree]
  | .or c rest => c.toTree :: rest.toTrees

def Chain.toTree : Chain → Tree
  | .single o => o.toTree
  | .and o rest => .group (.known .and) (o.toTree.merge .and ++ rest.toTrees)

/-- The trees of the operands, those of merged groups in their place. -/
def Chain.toTrees : Chain → List Tree
  | .single o => o.toTree.merge .and
  | .and o rest => o.toTree.merge .and ++ rest.toTrees

def Operand.toTree : Operand → Tree
  | .condition c => c.toTree
  | .group f => f.toTree

end

end TagQuery
