import Mathlib.Data.List.Forall2
import TagQuery.Proofs.Except
import TagQuery.Tree.OfFilter
import TagQuery.Tree.ToFilter

/-!
# What a node stands for

`Label.Gives l rs p` says that a node with the label `l`, over elements that stand for `rs`, stands for the
part `p`, with one rule for each kind of node:

    l.part rs = .ok p ↔ l.Gives rs p                                        (part_ok_iff)

So whatever is carried from the elements to the node by each of the rules (`Propagates`) holds of all trees
that stand for a part:

    Propagates motive → t.part = .ok p → motive t p                         (part_induction)

Neither direction of the mapping loses, doubles or moves a condition:

    t.part = .ok p → p.conditions.map .ok = t.leaves.map Label.condition    (conditions_part)
    f.toTree.leaves = f.conditions.map fun c => c.toTree.label              (leaves_toTree)
-/

namespace TagQuery

/-! ## Leaves -/

namespace Tree

mutual

/-- The labels of the leaves that a reader meets, from left to right. -/
def leaves : Tree → List Label
  | ⟨l, elements⟩ => if l.isTagFilter then [l] else leavesAll elements

def leavesAll : List Tree → List Label
  | [] => []
  | t :: ts => t.leaves ++ leavesAll ts

end

theorem leavesAll_append (ts us : List Tree) : leavesAll (ts ++ us) = leavesAll ts ++ leavesAll us := by
  induction ts with
  | nil => rfl
  | cons t ts ih => simp [leavesAll, ih]

theorem isTagFilter_of_isGroupOf {l : Label} {c : Connective} (h : l.isGroupOf c = true) :
    l.isTagFilter = false := by
  simp only [Label.isGroupOf, Label.isExpression, Bool.and_eq_true, beq_iff_eq] at h
  simp [Label.isTagFilter, h.1]

theorem leaves_group (c : Open Connective) (ts : List Tree) :
    (group c ts).leaves = leavesAll ts := by
  simp [group, leaves, Label.isTagFilter]

theorem leavesAll_merge (c : Connective) (t : Tree) : leavesAll (t.merge c) = t.leaves := by
  obtain ⟨l, elements⟩ := t
  unfold merge
  split
  · next h => simp [leaves, isTagFilter_of_isGroupOf h]
  · simp [leavesAll]

end Tree

namespace Condition

theorem label_toTree (c : Condition) : c.toTree.label.isTagFilter = true ∧ c.toTree.elements = [] := by
  cases c with
  | compare e op v =>
    cases v <;> cases h : e.key <;> simp only [toTree, entity, value?, h] <;> exact ⟨rfl, rfl⟩
  | test e op => exact ⟨rfl, rfl⟩

theorem leaves_toTree (c : Condition) : c.toTree.leaves = [c.toTree.label] := by
  cases h : c.toTree with
  | mk l elements =>
    have hlabel := (label_toTree c).1
    rw [h] at hlabel
    simp [Tree.leaves, hlabel]

end Condition

mutual

/-- The leaves of a filter's tree are the labels of its conditions. -/
theorem Filter.leaves_toTree : ∀ f : Filter,
    f.toTree.leaves = f.conditions.map fun c => c.toTree.label
  | .single c => c.leaves_toTree
  | .or c rest => by
    rw [Filter.toTree, Tree.leaves_group, Tree.leavesAll_append, Tree.leavesAll_merge,
      c.leaves_toTree, rest.leaves_toTrees, Filter.conditions, List.map_append]

theorem Filter.leaves_toTrees : ∀ f : Filter,
    Tree.leavesAll f.toTrees = f.conditions.map fun c => c.toTree.label
  | .single c => by simp [Filter.toTrees, Tree.leavesAll, c.leaves_toTree, Filter.conditions]
  | .or c rest => by
    simp [Filter.toTrees, Tree.leavesAll, c.leaves_toTree, rest.leaves_toTrees, Filter.conditions]

theorem Chain.leaves_toTree : ∀ c : Chain,
    c.toTree.leaves = c.conditions.map fun c => c.toTree.label
  | .single o => o.leaves_toTree
  | .and o rest => by
    rw [Chain.toTree, Tree.leaves_group, Tree.leavesAll_append, Tree.leavesAll_merge,
      o.leaves_toTree, rest.leaves_toTrees, Chain.conditions, List.map_append]

theorem Chain.leaves_toTrees : ∀ c : Chain,
    Tree.leavesAll c.toTrees = c.conditions.map fun c => c.toTree.label
  | .single o => by
    rw [Chain.toTrees, Tree.leavesAll_merge, o.leaves_toTree, Chain.conditions]
  | .and o rest => by
    rw [Chain.toTrees, Tree.leavesAll_append, Tree.leavesAll_merge, o.leaves_toTree,
      rest.leaves_toTrees, Chain.conditions, List.map_append]

theorem Operand.leaves_toTree : ∀ o : Operand,
    o.toTree.leaves = o.conditions.map fun c => c.toTree.label
  | .condition c => by
    rw [Operand.toTree, c.leaves_toTree]
    rfl
  | .group f => f.leaves_toTree

end

/-! ## What a leaf stands for -/

/-- The fields of a leaf that stands for a condition. -/
structure Label.Describes (l : Label) (c : Condition) : Prop where
  name : l.name = some c.entity.name
  plain : isPlainName c.entity.name = true
  origin : ∃ s, l.entity = some (.known s) ∧ c.entity.origin = some s.origin
  key : l.key = c.entity.key
  operator : l.operator = some (.known (.of c.operator))
  value : l.leafValue = c.value?
  single : l.typedValueCount ≤ 1

namespace Label

variable {l : Label}

theorem isExpression_of_isGroupOf {c : Connective} (h : l.isGroupOf c = true) : l.isExpression = true :=
  (Bool.and_eq_true _ _ ▸ h).1

theorem leafName_ok_iff {name : String} :
    l.leafName = .ok name ↔ l.name = some name ∧ isPlainName name = true := by
  unfold leafName
  split
  · next h => simp [h]
  · next found h =>
    by_cases hplain : isPlainName found = true
    · rw [if_pos hplain, h]
      constructor
      · intro he
        obtain rfl := Except.ok.inj he
        exact ⟨rfl, hplain⟩
      · rintro ⟨he, -⟩
        rw [Option.some.inj he]
    · rw [if_neg hplain, h]
      constructor
      · intro he
        simp at he
      · rintro ⟨he, hname⟩
        rw [Option.some.inj he] at hplain
        exact absurd hname hplain

theorem leafOrigin_ok_iff {o : Origin} :
    l.leafOrigin = .ok o ↔ ∃ s, l.entity = some (.known s) ∧ o = s.origin := by
  unfold leafOrigin
  split <;> simp_all [eq_comm]

theorem leafOperator_ok_iff {op : Open LeafOperator} : l.leafOperator = .ok op ↔ l.operator = some op := by
  unfold leafOperator
  split <;> simp_all

/-- The condition on a tag has the operator of the leaf and its value. -/
theorem conditionOn_ok_iff {x : Entity} {op : Open LeafOperator} {v : Option Value} {c : Condition} :
    conditionOn x op v = .ok c ↔ op = .known (.of c.operator) ∧ x = c.entity ∧ v = c.value? := by
  constructor
  · intro h
    unfold conditionOn at h
    split at h <;> split at h <;> simp only [reduceCtorEq, Except.ok.injEq] at h
    · next v _ op hop =>
      obtain ⟨w, rfl, hw⟩ := Open.bind_word?_eq_some_iff.1 hop
      obtain rfl := LeafOperator.comparison?_eq_some_iff.1 hw
      subst h
      exact ⟨rfl, rfl, rfl⟩
    · next _ op hop =>
      obtain ⟨w, rfl, hw⟩ := Open.bind_word?_eq_some_iff.1 hop
      obtain rfl := LeafOperator.test?_eq_some_iff.1 hw
      subst h
      exact ⟨rfl, rfl, rfl⟩
  · rintro ⟨rfl, rfl, rfl⟩
    cases c <;> simp [conditionOn, Condition.operator, LeafOperator.of, Open.word?, Condition.value?,
      Condition.entity]

/-- A leaf is read as a condition just if its fields say so. -/
theorem condition_ok_iff {c : Condition} : l.condition = .ok c ↔ l.Describes c := by
  constructor
  · intro h
    obtain ⟨name, hname, h⟩ := Except.bind_ok_iff.1 h
    obtain ⟨o, horigin, h⟩ := Except.bind_ok_iff.1 h
    obtain ⟨op, hoperator, h⟩ := Except.bind_ok_iff.1 h
    obtain ⟨hname, hplain⟩ := leafName_ok_iff.1 hname
    obtain ⟨s, hentity, rfl⟩ := leafOrigin_ok_iff.1 horigin
    rw [leafOperator_ok_iff] at hoperator
    split at h
    · simp at h
    · next hcount =>
      obtain ⟨rfl, htag, hvalue⟩ := conditionOn_ok_iff.1 h
      exact ⟨htag ▸ hname, htag ▸ hplain, ⟨s, hentity, htag ▸ rfl⟩, htag ▸ rfl, hoperator, hvalue,
        Nat.not_lt.1 hcount⟩
  · rintro ⟨hname, hplain, ⟨s, hentity, horigin⟩, hkey, hoperator, hvalue, hsingle⟩
    have hcount : ¬1 < l.typedValueCount := Nat.not_lt.2 hsingle
    have hname' := leafName_ok_iff.2 ⟨hname, hplain⟩
    have horigin' := leafOrigin_ok_iff.2 ⟨s, hentity, rfl⟩
    have hoperator' := leafOperator_ok_iff.2 hoperator
    simp only [condition, hname', horigin', hoperator', Except.ok_bind, if_neg hcount, hvalue, hkey,
      ← horigin]
    exact conditionOn_ok_iff.2 ⟨rfl, rfl, rfl⟩

end Label

/-! ## Conditions of chains and parts -/

theorem Chain.conditions_ofOperands (o : Operand) (os : List Operand) :
    (Chain.ofOperands o os).conditions = (o :: os).flatMap Operand.conditions := by
  induction os generalizing o with
  | nil => simp [Chain.ofOperands, Chain.conditions]
  | cons p os ih => simp [Chain.ofOperands, Chain.conditions, ih]

theorem Filter.conditions_ofChains (c : Chain) (cs : List Chain) :
    (Filter.ofChains c cs).conditions = (c :: cs).flatMap Chain.conditions := by
  induction cs generalizing c with
  | nil => simp [Filter.ofChains, Filter.conditions]
  | cons d cs ih => simp [Filter.ofChains, Filter.conditions, ih]

theorem Chain.conditions_operands : ∀ c : Chain, c.operands.flatMap Operand.conditions = c.conditions
  | .single o => by simp [Chain.operands, Chain.conditions]
  | .and o rest => by simp [Chain.operands, Chain.conditions, rest.conditions_operands]

namespace Part

/-- The conditions of a part, from left to right. -/
def conditions (p : Part) : List Condition :=
  p.toOperand.conditions

theorem toOperands_ne_nil (p : Part) : p.toOperands ≠ [] := by
  cases p with
  | chain c => exact c.operands_ne_nil
  | condition c => simp [toOperands]
  | filter f => simp [toOperands]

theorem conditions_toOperands (p : Part) : p.toOperands.flatMap Operand.conditions = p.conditions := by
  cases p with
  | condition c => rfl
  | chain c => exact c.conditions_operands
  | filter f => simp [toOperands, conditions]

theorem conditions_eq_toOperands (ps : List Part) :
    ps.flatMap conditions = (ps.flatMap toOperands).flatMap Operand.conditions := by
  simp [List.flatMap_assoc, conditions_toOperands]

theorem all_ok_iff {rs : List (Except ShapeError Part)} {ps : List Part} :
    Part.all rs = .ok ps ↔ rs = ps.map .ok := by
  induction rs generalizing ps with
  | nil => cases ps <;> simp [Part.all]
  | cons r rs ih =>
    cases ps with
    | nil => cases r <;> simp [Part.all, Except.bind_ok_iff, pure, Except.pure]
    | cons p ps =>
      simp only [Part.all, Except.bind_ok_iff, ih, pure, Except.pure, Except.ok.injEq, List.cons.injEq,
        List.map_cons]
      constructor
      · rintro ⟨q, rfl, qs, rfl, rfl, rfl⟩
        exact ⟨rfl, rfl⟩
      · rintro ⟨rfl, rfl⟩
        exact ⟨p, rfl, ps, rfl, rfl, rfl⟩

end Part

/-! ## What a node stands for -/

/-- A node with this label, over elements that stand for parts, stands for a part. -/
inductive Label.Gives (l : Label) : List (Except ShapeError Part) → Part → Prop where
  | leaf {rs : List (Except ShapeError Part)} {c : Condition} (kind : l.isTagFilter = true)
      (condition : l.condition = .ok c) : Gives l rs (.condition c)
  | only {p : Part} (kind : l.isGroupOf .and = true) : Gives l [.ok p] p
  | chain {ps : List Part} {o : Operand} {os : List Operand} (kind : l.isGroupOf .and = true)
      (many : ps.length ≠ 1) (operands : ps.flatMap Part.toOperands = o :: os) :
      Gives l (ps.map .ok) (.chain (.ofOperands o os))
  | filter {p q : Part} {ps : List Part} (kind : l.isGroupOf .or = true)
      (first : ∀ f, p ≠ .filter f) :
      Gives l ((p :: q :: ps).map .ok) (.filter (.ofChains p.toChain ((q :: ps).map Part.toChain)))

namespace Part

theorem joinAnd_ok_iff {ps : List Part} {p : Part} :
    joinAnd ps = .ok p ↔ ∃ o os, ps.flatMap toOperands = o :: os ∧ p = .chain (.ofOperands o os) := by
  unfold joinAnd
  split
  · next h => simp [h]
  · next o os h =>
    simp only [h, Except.ok.injEq, List.cons.injEq]
    constructor
    · rintro rfl
      exact ⟨o, os, ⟨rfl, rfl⟩, rfl⟩
    · rintro ⟨o, os, ⟨rfl, rfl⟩, rfl⟩
      rfl

end Part

theorem gives_of_ofAnd {l : Label} {rs : List (Except ShapeError Part)} {p : Part}
    (kind : l.isGroupOf .and = true) (h : Part.ofAnd rs = .ok p) : l.Gives rs p := by
  unfold Part.ofAnd at h
  split at h
  · obtain rfl := h
    exact .only kind
  · next hmany =>
    obtain ⟨ps, hall, hjoin⟩ := Except.bind_ok_iff.1 h
    obtain rfl := Part.all_ok_iff.1 hall
    obtain ⟨o, os, hoperands, rfl⟩ := Part.joinAnd_ok_iff.1 hjoin
    refine .chain kind (fun hone => ?_) hoperands
    obtain ⟨q, rfl⟩ := List.length_eq_one_iff.1 hone
    exact hmany _ rfl

theorem gives_of_ofOr {l : Label} {rs : List (Except ShapeError Part)} {p : Part}
    (kind : l.isGroupOf .or = true) (h : Part.ofOr rs = .ok p) : l.Gives rs p := by
  unfold Part.ofOr at h
  split at h
  · next r s rs =>
    obtain ⟨q, rfl, hq⟩ := Except.bind_ok_iff.1 h
    split at hq
    · simp at hq
    · next hfirst =>
      obtain ⟨ps, hall, hp⟩ := Except.bind_ok_iff.1 hq
      obtain rfl := Except.ok.inj hp
      have hlist := Part.all_ok_iff.1 hall
      cases ps with
      | nil => simp at hlist
      | cons q' ps =>
        rw [hlist]
        exact .filter kind hfirst
  · simp at h

theorem part_ok_iff {l : Label} {rs : List (Except ShapeError Part)} {p : Part} :
    l.part rs = .ok p ↔ l.Gives rs p := by
  constructor
  · intro h
    unfold Label.part at h
    split at h
    · next hkind =>
      split at h
      · next hc => exact gives_of_ofAnd (by simp [Label.isGroupOf, Label.isExpression, hkind, hc]) h
      · next hc => exact gives_of_ofOr (by simp [Label.isGroupOf, Label.isExpression, hkind, hc]) h
      · simp at h
    · next hkind =>
      obtain ⟨c, hcondition, h⟩ := Except.bind_ok_iff.1 h
      obtain rfl := Except.ok.inj h
      exact .leaf (by simp [Label.isTagFilter, hkind]) hcondition
    · simp at h
  · intro h
    cases h with
    | leaf kind condition =>
      simp only [Label.isTagFilter, beq_iff_eq] at kind
      simp only [Label.part, kind, condition, Except.ok_bind]
      rfl
    | only kind =>
      simp only [Label.isGroupOf, Label.isExpression, Bool.and_eq_true, beq_iff_eq] at kind
      simp [Label.part, kind, Part.ofAnd]
    | @chain ps o os kind many operands =>
      simp only [Label.isGroupOf, Label.isExpression, Bool.and_eq_true, beq_iff_eq] at kind
      have hall : Part.all (ps.map .ok) = .ok ps := Part.all_ok_iff.2 rfl
      simp only [Label.part, kind]
      unfold Part.ofAnd
      split
      · next hone => exact absurd (by simpa using congrArg List.length hone) many
      · rw [hall]
        exact Part.joinAnd_ok_iff.2 ⟨o, os, operands, rfl⟩
    | @filter p q ps kind first =>
      simp only [Label.isGroupOf, Label.isExpression, Bool.and_eq_true, beq_iff_eq] at kind
      have hall : Part.all (.ok q :: ps.map .ok) = .ok (q :: ps) := Part.all_ok_iff.2 rfl
      simp only [Label.part, kind, List.map_cons, Part.ofOr, Except.ok_bind, hall]
      cases p with
      | filter f => exact absurd rfl (first f)
      | condition c => rfl
      | chain c => rfl

/-- A tree that is not too large is read as what it stands for. -/
theorem Tree.toFilter_ok_iff {t : Tree} {f : Filter} :
    t.toFilter = .ok f ↔
      t.nodeCount ≤ maxNodes ∧ ∃ p, t.part = .ok p ∧ f = .ofOperand p.toOperand := by
  unfold toFilter
  split
  · next hlarge =>
    constructor
    · exact nofun
    · rintro ⟨hsmall, -⟩
      omega
  · next hsmall =>
    rw [Except.bind_ok_iff]
    constructor
    · rintro ⟨p, hpart, h⟩
      exact ⟨Nat.not_lt.1 hsmall, p, hpart, (Except.ok.inj h).symm⟩
    · rintro ⟨-, p, hpart, rfl⟩
      exact ⟨p, hpart, rfl⟩

/-! ## Induction on what trees stand for -/

/-- What holds of a node that stands for a part, if it holds of the node's elements, with one rule for
each kind of node.  Nothing is known of the elements of a leaf, which are not read. -/
structure Propagates (motive : Tree → Part → Prop) : Prop where
  leaf {l : Label} {ts : List Tree} {c : Condition} (kind : l.isTagFilter = true)
    (condition : l.condition = .ok c) : motive ⟨l, ts⟩ (.condition c)
  only {l : Label} {t : Tree} {p : Part} (kind : l.isGroupOf .and = true) (element : motive t p) :
    motive ⟨l, [t]⟩ p
  chain {l : Label} {ts : List Tree} {ps : List Part} {o : Operand} {os : List Operand}
    (kind : l.isGroupOf .and = true) (many : ps.length ≠ 1)
    (operands : ps.flatMap Part.toOperands = o :: os) (elements : List.Forall₂ motive ts ps) :
    motive ⟨l, ts⟩ (.chain (.ofOperands o os))
  filter {l : Label} {ts : List Tree} {p q : Part} {ps : List Part} (kind : l.isGroupOf .or = true)
    (first : ∀ f, p ≠ .filter f) (elements : List.Forall₂ motive ts (p :: q :: ps)) :
    motive ⟨l, ts⟩ (.filter (.ofChains p.toChain ((q :: ps).map Part.toChain)))

mutual

/-- What propagates from elements to nodes holds of all trees that stand for a part. -/
theorem part_induction {motive : Tree → Part → Prop} (rules : Propagates motive) :
    ∀ {t : Tree} {p : Part}, t.part = .ok p → motive t p
  | ⟨l, ts⟩, p, h => by
    rw [Tree.part, part_ok_iff] at h
    generalize hrs : Tree.parts ts = rs at h
    cases h with
    | leaf kind condition => exact rules.leaf kind condition
    | only kind =>
      have hall := @parts_induction motive rules ts [p] hrs
      obtain ⟨t, us, ht, hus, rfl⟩ := List.forall₂_cons_right_iff.1 hall
      obtain rfl := List.forall₂_nil_right_iff.1 hus
      exact rules.only kind ht
    | chain kind many operands => exact rules.chain kind many operands (parts_induction rules hrs)
    | @filter p q ps kind first =>
      exact rules.filter kind first (@parts_induction motive rules ts (p :: q :: ps) hrs)

theorem parts_induction {motive : Tree → Part → Prop} (rules : Propagates motive) :
    ∀ {ts : List Tree} {ps : List Part}, Tree.parts ts = ps.map .ok → List.Forall₂ motive ts ps
  | [], ps, h => by
    obtain rfl : ps = [] := by simpa [Tree.parts] using h.symm
    exact .nil
  | t :: ts, [], h => by simp [Tree.parts] at h
  | t :: ts, p :: ps, h => by
    simp only [Tree.parts, List.map_cons, List.cons.injEq] at h
    exact .cons (part_induction rules h.1) (parts_induction rules h.2)

end

theorem conditions_parts {ts : List Tree} {ps : List Part}
    (h : List.Forall₂ (fun t p => p.conditions.map .ok = t.leaves.map Label.condition) ts ps) :
    (ps.flatMap Part.conditions).map .ok = (Tree.leavesAll ts).map Label.condition := by
  induction h with
  | nil => rfl
  | cons hp _ ih => rw [List.flatMap_cons, List.map_append, hp, ih, Tree.leavesAll, List.map_append]

/-- The conditions of what a tree stands for are those of its leaves. -/
theorem conditions_part {t : Tree} {p : Part} (h : t.part = .ok p) :
    p.conditions.map .ok = t.leaves.map Label.condition := by
  refine part_induction (motive := fun t p => p.conditions.map .ok = t.leaves.map Label.condition)
    ⟨?leaf, ?only, ?chain, ?filter⟩ h
  case leaf =>
    intro l ts c kind condition
    simp only [Tree.leaves, kind, if_true, List.map_cons, List.map_nil, condition]
    rfl
  case only =>
    intro l t p kind hp
    simp [Tree.leaves, Tree.leavesAll, Tree.isTagFilter_of_isGroupOf kind, hp]
  case chain =>
    intro l ts ps o os kind many operands hps
    have hes := conditions_parts hps
    rw [Part.conditions_eq_toOperands, operands] at hes
    rw [Tree.leaves, if_neg (by simp [Tree.isTagFilter_of_isGroupOf kind]), ← hes,
      ← Chain.conditions_ofOperands]
    rfl
  case filter =>
    intro l ts p q ps kind first hps
    have hes := conditions_parts hps
    rw [Tree.leaves, if_neg (by simp [Tree.isTagFilter_of_isGroupOf kind]), ← hes]
    show (Filter.ofChains p.toChain ((q :: ps).map Part.toChain)).conditions.map _ = _
    rw [Filter.conditions_ofChains, ← List.map_cons, List.flatMap_map]
    rfl

end TagQuery
