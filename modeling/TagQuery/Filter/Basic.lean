import TagQuery.Filter.Operator
import TagQuery.Filter.Origin
import TagQuery.Number.Basic

/-! Filters.

A filter is a chain of alternatives joined by `OR`, an alternative a chain of operands joined by `AND`,
and an operand a condition or a filter in brackets.  No chain is empty.  Brackets are kept as they are
written, so that a filter prints the way it was read. -/

namespace TagQuery

/-- What a comparison compares with. -/
inductive Value where
  | string (text : String)
  | number (value : Number)
  | boolean (value : Bool)
  deriving DecidableEq, Repr

/-- The tag that a condition looks at: a name, a key for tags that have keys of their own, and the side of
the call. -/
structure Entity where
  name : String
  key : Option String
  origin : Option Origin
  deriving DecidableEq, Repr

/-- A single comparison or test. -/
inductive Condition where
  | compare (entity : Entity) (op : Comparison) (value : Value)
  | test (entity : Entity) (op : Test)
  deriving DecidableEq, Repr

mutual

/-- Alternatives joined by `OR`. -/
inductive Filter where
  | single (chain : Chain)
  | or (chain : Chain) (rest : Filter)
  deriving DecidableEq, Repr

/-- Operands joined by `AND`. -/
inductive Chain where
  | single (operand : Operand)
  | and (operand : Operand) (rest : Chain)
  deriving DecidableEq, Repr

/-- A condition, or a filter in brackets. -/
inductive Operand where
  | condition (c : Condition)
  | group (f : Filter)
  deriving DecidableEq, Repr

end

namespace Condition

def entity : Condition → Entity
  | .compare e _ _ => e
  | .test e _ => e

def operator : Condition → Operator
  | .compare _ op _ => .comparison op
  | .test _ op => .test op

def value? : Condition → Option Value
  | .compare _ _ v => some v
  | .test _ _ => none

end Condition

/-! ## Chains and their operands -/

/-- The operands of a chain, in order. -/
def Chain.operands : Chain → List Operand
  | .single o => [o]
  | .and o rest => o :: rest.operands

/-- The alternatives of a filter, in order. -/
def Filter.chains : Filter → List Chain
  | .single c => [c]
  | .or c rest => c :: rest.chains

/-- The chain of a first operand and the others. -/
def Chain.ofOperands : Operand → List Operand → Chain
  | o, [] => .single o
  | o, p :: rest => .and o (.ofOperands p rest)

/-- The filter of a first alternative and the others. -/
def Filter.ofChains : Chain → List Chain → Filter
  | c, [] => .single c
  | c, d :: rest => .or c (.ofChains d rest)

def Filter.ofOperand (o : Operand) : Filter :=
  .single (.single o)

def Chain.isSingle : Chain → Bool
  | .single _ => true
  | .and _ _ => false

def Filter.isSingle : Filter → Bool
  | .single _ => true
  | .or _ _ => false

/-! ## Measures -/

mutual

/-- The conditions of a filter, from left to right. -/
def Filter.conditions : Filter → List Condition
  | .single c => c.conditions
  | .or c rest => c.conditions ++ rest.conditions

def Chain.conditions : Chain → List Condition
  | .single o => o.conditions
  | .and o rest => o.conditions ++ rest.conditions

def Operand.conditions : Operand → List Condition
  | .condition c => [c]
  | .group f => f.conditions

end

mutual

/-- How many brackets are open at the deepest place. -/
def Filter.depth : Filter → Nat
  | .single c => c.depth
  | .or c rest => max c.depth rest.depth

def Chain.depth : Chain → Nat
  | .single o => o.depth
  | .and o rest => max o.depth rest.depth

def Operand.depth : Operand → Nat
  | .condition _ => 0
  | .group f => f.depth + 1

end

/-! ## Lemmas -/

@[simp] theorem Chain.operands_ofOperands (o : Operand) (os : List Operand) :
    (Chain.ofOperands o os).operands = o :: os := by
  induction os generalizing o with
  | nil => rfl
  | cons p rest ih => simp [Chain.ofOperands, Chain.operands, ih]

@[simp] theorem Filter.chains_ofChains (c : Chain) (cs : List Chain) :
    (Filter.ofChains c cs).chains = c :: cs := by
  induction cs generalizing c with
  | nil => rfl
  | cons d rest ih => simp [Filter.ofChains, Filter.chains, ih]

theorem Chain.operands_ne_nil (c : Chain) : c.operands ≠ [] := by
  cases c <;> simp [Chain.operands]

theorem Filter.chains_ne_nil (f : Filter) : f.chains ≠ [] := by
  cases f <;> simp [Filter.chains]

end TagQuery
