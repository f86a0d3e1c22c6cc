import TagQuery.Proofs.Tree.ReadBack

/-!
# What filters and trees mean

A filter and a tree are formulas over what their conditions and leaves assert: `AND` holds if all operands
hold, `OR` if some operand holds, and an assertion as a valuation says.  A condition without an origin
asserts what the one with the destination does.

    f.toTree.truth? v = some (f.holds v)                                    (truth_toTree)
    t.toFilter = .ok f → t.truth? v = some (f.holds v)                      (truth_toFilter)

With the order of conditions and leaves this is what both directions of the mapping keep
(`mapping_keeps_meaning`).
-/

namespace TagQuery

/-- What a condition or a leaf asserts of a call. -/
structure Assertion where
  name : String
  key : Option String
  origin : Origin
  operator : Operator
  value : Option Value
  deriving DecidableEq, Repr

/-- What a condition asserts: without an origin, it is about the destination. -/
def Condition.assertion (c : Condition) : Assertion :=
  ⟨c.entity.name, c.entity.key, c.entity.origin.getD .destination, c.operator, c.value?⟩

/-- The typed values of a label, a string without the key that it may repeat. -/
def Label.values (l : Label) : List Value :=
  (l.tagValue.map Value.string).toList ++ (l.numberValue.map Value.number).toList
    ++ (l.booleanValue.map Value.boolean).toList

/-- The origin that a filter knows under the name of the leaf's side. -/
def Label.origin? (l : Label) : Option Origin :=
  l.entity.bind fun side => wordOf? Origin side.text

/-- The operator that a filter knows under the name of the leaf's operator. -/
def Label.operator? (l : Label) : Option Operator :=
  l.operator.bind fun op => wordOf? Operator op.text

/-- What a leaf asserts, if it names a tag, a known side and a known operator and has one value at most. -/
def Label.assertion? (l : Label) : Option Assertion :=
  match l.name, l.origin?, l.operator?, l.values with
  | some name, some origin, some op, [] => some ⟨name, l.key, origin, op, none⟩
  | some name, some origin, some op, [v] => some ⟨name, l.key, origin, op, some v⟩
  | _, _, _, _ => none

/-- The truth value of operands that are joined. -/
def Connective.join : Connective → List Bool → Bool
  | .and, bs => bs.all id
  | .or, bs => bs.any id

mutual

/-- The filter holds where assertions have the truth values `v`. -/
def Filter.holds (v : Assertion → Bool) : Filter → Bool
  | .single c => c.holds v
  | .or c rest => c.holds v || rest.holds v

def Chain.holds (v : Assertion → Bool) : Chain → Bool
  | .single o => o.holds v
  | .and o rest => o.holds v && rest.holds v

def Operand.holds (v : Assertion → Bool) : Operand → Bool
  | .condition c => v c.assertion
  | .group f => f.holds v

end

namespace Tree

mutual

/-- The truth value of a tree where assertions have the truth values `v`, if all its nodes make sense. -/
def truth? (v : Assertion → Bool) : Tree → Option Bool
  | ⟨l, elements⟩ =>
    match l.kind, l.connective with
    | some (.known .tagFilter), _ => l.assertion?.map v
    | some (.known .expression), some (.known c) => (truths? v elements).map c.join
    | _, _ => none

def truths? (v : Assertion → Bool) : List Tree → Option (List Bool)
  | [] => some []
  | t :: ts => do
    let b ← t.truth? v
    let bs ← truths? v ts
    return b :: bs

end

end Tree

/-! ## Filters -/

theorem Chain.holds_eq (v : Assertion → Bool) (c : Chain) :
    c.holds v = c.operands.all (Operand.holds v) := by
  cases c with
  | single o => simp [Chain.holds, Chain.operands]
  | and o rest => simp [Chain.holds, Chain.operands, Chain.holds_eq v rest]

theorem Filter.holds_eq (v : Assertion → Bool) (f : Filter) :
    f.holds v = f.chains.any (Chain.holds v) := by
  cases f with
  | single c => simp [Filter.holds, Filter.chains]
  | or c rest => simp [Filter.holds, Filter.chains, Filter.holds_eq v rest]

/-! ## Leaves -/

theorem values_eq {l : Label} (h : l.typedValueCount ≤ 1) : l.values = l.leafValue.toList := by
  have htag : l.tagValue.isSome = l.stringValue.isSome := by
    unfold Label.tagValue
    split <;> simp_all
  rw [Label.typedValueCount, ← htag] at h
  unfold Label.values Label.leafValue
  cases htext : l.tagValue <;> cases hnumber : l.numberValue <;> cases hboolean : l.booleanValue <;>
    simp_all

theorem origin?_eq {l : Label} {side : Side} (h : l.entity = some (.known side)) :
    l.origin? = some side.origin := by
  rw [Label.origin?, h]
  show wordOf? Origin (Vocabulary.spelling side) = some side.origin
  rw [← side.spelling_origin, wordOf?_spelling]

theorem operator?_eq {l : Label} {op : Operator} (h : l.operator = some (.known (.of op))) :
    l.operator? = some op := by
  rw [Label.operator?, h]
  show wordOf? Operator (Vocabulary.spelling (LeafOperator.of op)) = some op
  rw [LeafOperator.spelling_of, wordOf?_spelling]

/-- A leaf asserts what its fields say. -/
theorem assertion?_eq {l : Label} {a : Assertion} {side : Side} (name : l.name = some a.name)
    (key : l.key = a.key) (entity : l.entity = some (.known side)) (origin : side.origin = a.origin)
    (operator : l.operator = some (.known (.of a.operator))) (value : l.leafValue = a.value)
    (single : l.typedValueCount ≤ 1) : l.assertion? = some a := by
  have hvalues : l.values = a.value.toList := by rw [values_eq single, value]
  unfold Label.assertion?
  rw [name, origin?_eq entity, operator?_eq operator, hvalues, key, origin]
  obtain ⟨_, _, _, _, v⟩ := a
  cases v <;> rfl

/-- A leaf asserts what the condition does that it is read as. -/
theorem assertion_of_condition {l : Label} {c : Condition} (h : l.condition = .ok c) :
    l.assertion? = some c.assertion := by
  obtain ⟨hname, -, ⟨side, hentity, horigin⟩, hkey, hoperator, hvalue, hsingle⟩ :=
    Label.condition_ok_iff.1 h
  refine assertion?_eq hname hkey hentity ?_ hoperator hvalue hsingle
  show side.origin = c.entity.origin.getD .destination
  rw [horigin]
  rfl

/-- A leaf asserts what the condition does that is sent as it. -/
theorem assertion_toTree (c : Condition) : c.toTree.label.assertion? = some c.assertion := by
  obtain ⟨hname, hentity, hoperator, hkey⟩ := fields_toTree c
  obtain ⟨hvalue, hsingle⟩ := leafValue_toTree c
  exact assertion?_eq hname hkey hentity (Side.origin_ofOrigin _) hoperator hvalue hsingle

/-! ## Trees -/

/-- The truth value of two operands that are joined. -/
def Connective.pair : Connective → Bool → Bool → Bool
  | .and, a, b => a && b
  | .or, a, b => a || b

namespace Tree

variable {v : Assertion → Bool} {ts us : List Tree} {t : Tree} {c : Connective} {a b : Bool}

theorem truth?_leaf (h : t.label.isTagFilter = true) : t.truth? v = t.label.assertion?.map v := by
  obtain ⟨l, elements⟩ := t
  simp only [Label.isTagFilter, beq_iff_eq] at h
  simp only [truth?, h]

theorem truth?_group (h : t.label.isGroupOf c = true) :
    t.truth? v = (truths? v t.elements).map c.join := by
  obtain ⟨l, elements⟩ := t
  simp only [Label.isGroupOf, Label.isExpression, Bool.and_eq_true, beq_iff_eq] at h
  simp only [truth?, h.1, h.2]

/-- Joined with `c`, the trees have the truth value `b`. -/
def Joins (v : Assertion → Bool) (c : Connective) (ts : List Tree) (b : Bool) : Prop :=
  ∃ bs, truths? v ts = some bs ∧ c.join bs = b

theorem truths?_append {bs cs : List Bool} (h : truths? v ts = some bs) (k : truths? v us = some cs) :
    truths? v (ts ++ us) = some (bs ++ cs) := by
  induction ts generalizing bs with
  | nil =>
    obtain rfl := Option.some.inj h
    exact k
  | cons t ts ih =>
    obtain ⟨b, hb, h⟩ := Option.bind_eq_some_iff.1 h
    obtain ⟨bs', hbs, h⟩ := Option.bind_eq_some_iff.1 h
    obtain rfl := Option.some.inj h
    simp only [List.cons_append, truths?, hb, ih hbs]
    rfl

theorem join_append (c : Connective) (as bs : List Bool) :
    c.join (as ++ bs) = c.pair (c.join as) (c.join bs) := by
  cases c with
  | and => exact List.all_append
  | or => exact List.any_append

theorem joins_single (h : t.truth? v = some b) : Joins v c [t] b := by
  refine ⟨[b], by simp only [truths?, h]; rfl, ?_⟩
  cases c <;> simp [Connective.join]

theorem Joins.append (h : Joins v c ts a) (k : Joins v c us b) : Joins v c (ts ++ us) (c.pair a b) := by
  obtain ⟨as, has, rfl⟩ := h
  obtain ⟨bs, hbs, rfl⟩ := k
  exact ⟨as ++ bs, truths?_append has hbs, join_append c as bs⟩

/-- Merging a group joined with `c` into another one keeps what they say together. -/
theorem joins_merge (h : t.truth? v = some b) : Joins v c (t.merge c) b := by
  cases hc : t.label.isGroupOf c with
  | false =>
    rw [merge_of_not hc]
    exact joins_single h
  | true =>
    rw [merge_of_isGroupOf hc]
    rw [truth?_group hc] at h
    exact Option.map_eq_some_iff.1 h

theorem Joins.group (h : Joins v c ts b) : (group (.known c) ts).truth? v = some b := by
  rw [truth?_group (c := c) (by simp [isGroupOf_group])]
  exact Option.map_eq_some_iff.2 h

end Tree

open TagQuery.Tree

mutual

/-- The tree of a filter means what the filter does. -/
theorem Filter.truth_toTree (v : Assertion → Bool) : ∀ f : Filter, f.toTree.truth? v = some (f.holds v)
  | .single c => c.truth_toTree v
  | .or c rest => ((joins_merge (c.truth_toTree v)).append (rest.joins_toTrees v)).group

theorem Filter.joins_toTrees (v : Assertion → Bool) : ∀ f : Filter, Joins v .or f.toTrees (f.holds v)
  | .single c => joins_single (c.truth_toTree v)
  | .or c rest => (joins_single (c.truth_toTree v)).append (rest.joins_toTrees v)

theorem Chain.truth_toTree (v : Assertion → Bool) : ∀ c : Chain, c.toTree.truth? v = some (c.holds v)
  | .single o => o.truth_toTree v
  | .and o rest => ((joins_merge (o.truth_toTree v)).append (rest.joins_toTrees v)).group

theorem Chain.joins_toTrees (v : Assertion → Bool) : ∀ c : Chain, Joins v .and c.toTrees (c.holds v)
  | .single o => joins_merge (o.truth_toTree v)
  | .and o rest => (joins_merge (o.truth_toTree v)).append (rest.joins_toTrees v)

theorem Operand.truth_toTree (v : Assertion → Bool) : ∀ o : Operand,
    o.toTree.truth? v = some (o.holds v)
  | .condition c => by
    rw [Operand.toTree, truth?_leaf c.label_toTree.1, assertion_toTree]
    rfl
  | .group f => f.truth_toTree v

end

/-! ## Parts -/

namespace Part

/-- The part holds as one operand. -/
def holds (v : Assertion → Bool) (p : Part) : Bool :=
  p.toOperand.holds v

/-- A part says as one operand what it says as several operands of a chain. -/
theorem all_toOperands (v : Assertion → Bool) (p : Part) :
    p.toOperands.all (Operand.holds v) = p.holds v := by
  cases p with
  | condition c => simp [toOperands, holds]
  | chain c => exact (c.holds_eq v).symm
  | filter f => simp [toOperands, holds]

end Part

theorem truths_parts {v : Assertion → Bool} {ts : List Tree} {ps : List Part}
    (h : List.Forall₂ (fun t p => t.truth? v = some (p.holds v)) ts ps) :
    truths? v ts = some (ps.map (Part.holds v)) := by
  induction h with
  | nil => rfl
  | cons hp _ ih =>
    simp only [truths?, hp, ih]
    rfl

/-- What a tree stands for means what the tree does. -/
theorem truth_part (v : Assertion → Bool) {t : Tree} {p : Part} (h : t.part = .ok p) :
    t.truth? v = some (p.holds v) := by
  refine part_induction (motive := fun t p => t.truth? v = some (p.holds v))
    ⟨?leaf, ?only, ?chain, ?filter⟩ h
  case leaf =>
    intro l ts c kind condition
    rw [truth?_leaf kind, assertion_of_condition condition]
    rfl
  case only =>
    intro l t p kind hp
    rw [truth?_group kind, truths_parts (.cons hp .nil)]
    simp [Connective.join]
  case chain =>
    intro l ts ps o os kind many operands hps
    rw [truth?_group kind, truths_parts hps, Option.map_some, Option.some.injEq]
    show (ps.map (Part.holds v)).all id = (Chain.ofOperands o os).holds v
    rw [Chain.holds_eq, Chain.operands_ofOperands, ← operands, List.all_flatMap, List.all_map]
    exact congrArg ps.all (funext fun p => (p.all_toOperands v).symm)
  case filter =>
    intro l ts p q ps kind first hps
    rw [truth?_group kind, truths_parts hps, Option.map_some, Option.some.injEq]
    show ((p :: q :: ps).map (Part.holds v)).any id
      = (Filter.ofChains p.toChain ((q :: ps).map Part.toChain)).holds v
    rw [Filter.holds_eq, Filter.chains_ofChains, ← List.map_cons, List.any_map, List.any_map]
    rfl

/-- What a tree is read as means what the tree does. -/
theorem truth_toFilter (v : Assertion → Bool) {t : Tree} {f : Filter} (h : t.toFilter = .ok f) :
    t.truth? v = some (f.holds v) := by
  obtain ⟨-, p, hpart, rfl⟩ := toFilter_ok_iff.1 h
  exact truth_part v hpart

/-- **Both directions keep the meaning**, whatever truth values assertions have, and the conditions from
left to right, none lost, doubled or moved. -/
theorem mapping_keeps_meaning :
    (∀ f : Filter, (∀ v, f.toTree.truth? v = some (f.holds v))
        ∧ f.toTree.leaves = f.conditions.map fun c => c.toTree.label)
      ∧ ∀ (t : Tree) (f : Filter), t.toFilter = .ok f →
        (∀ v, t.truth? v = some (f.holds v))
          ∧ f.conditions.map .ok = t.leaves.map Label.condition :=
  ⟨fun f => ⟨fun v => f.truth_toTree v, f.leaves_toTree⟩,
    fun _ _ h => ⟨fun v => truth_toFilter v h, conditions_toFilter h⟩⟩

/-! ## A tree with groups in groups -/

/-- A test on the source. -/
def emptySource : Condition := .test ⟨"a", none, some .source⟩ .isEmpty

/-- A comparison of a tag with a key. -/
def keyedEquals : Condition := .compare ⟨"b", some "k", some .destination⟩ .equals (.string "x")

/-- An `AND` in an `AND`, with an `OR` in it. -/
def groupsInGroups : Tree :=
  .group (.known .and) [emptySource.toTree, .group (.known .and)
    [keyedEquals.toTree, .group (.known .or) [emptySource.toTree, keyedEquals.toTree]]]

/-- What such a tree is read as: one chain, with brackets inside. -/
def bracketsInChain : Filter :=
  .ofOperand (.group (.single (.and (.condition emptySource) (.and (.condition keyedEquals)
    (.single (.group (.or (.single (.condition emptySource))
      (.single (.single (.condition keyedEquals))))))))))

/-- One chain out of two groups holds where both do, and has the same four conditions. -/
theorem mapping_keeps_meaning_groups :
    groupsInGroups.toFilter = .ok bracketsInChain
      ∧ (∀ v, groupsInGroups.truth? v = some (bracketsInChain.holds v))
      ∧ bracketsInChain.conditions.map .ok = groupsInGroups.leaves.map Label.condition := by
  have h : groupsInGroups.toFilter = .ok bracketsInChain := by decide +kernel
  obtain ⟨hholds, hconditions⟩ := mapping_keeps_meaning.2 groupsInGroups bracketsInChain h
  exact ⟨h, hholds, hconditions⟩

end TagQuery
