import TagQuery.Proofs.Tree.Canonical

/-!
# The size of trees that are read and sent again

Reading a tree leaves out groups of one element and merges groups, and sending the filter adds no node,
so that the tree that is sent is not larger than the one that was read:

    t.part = .ok p → p.toOperand.toTree.nodeCount ≤ t.nodeCount               (nodeCount_part)
    t.toFilter = .ok f → f.toTree.nodeCount ≤ t.nodeCount                     (nodeCount_toFilter)
-/

namespace TagQuery

namespace Tree

theorem nodeCountAll_append (ts us : List Tree) :
    nodeCountAll (ts ++ us) = nodeCountAll ts + nodeCountAll us := by
  induction ts with
  | nil => simp [nodeCountAll]
  | cons t ts ih =>
    rw [List.cons_append, nodeCountAll, nodeCountAll, ih]
    omega

theorem nodeCount_eq (t : Tree) : t.nodeCount = 1 + nodeCountAll t.elements := by
  obtain ⟨l, elements⟩ := t
  rfl

/-- Merging a tree takes one node away at most. -/
theorem nodeCount_merge (c : Connective) (t : Tree) :
    nodeCountAll (t.merge c) ≤ t.nodeCount ∧ t.nodeCount ≤ 1 + nodeCountAll (t.merge c) := by
  cases hc : t.label.isGroupOf c with
  | false =>
    rw [merge_of_not hc, nodeCountAll, nodeCountAll]
    omega
  | true =>
    rw [merge_of_isGroupOf hc, nodeCount_eq]
    omega

end Tree

open TagQuery.Tree

/-- The tree of a chain has its operands' nodes, and one more at most. -/
theorem Chain.nodeCount_toTrees (c : Chain) :
    nodeCountAll c.toTrees ≤ c.toTree.nodeCount ∧ c.toTree.nodeCount ≤ 1 + nodeCountAll c.toTrees := by
  cases c with
  | single o => exact nodeCount_merge .and o.toTree
  | and o rest =>
    show nodeCountAll (o.toTree.merge .and ++ rest.toTrees)
        ≤ 1 + nodeCountAll (o.toTree.merge .and ++ rest.toTrees) ∧ _
    exact ⟨Nat.le_add_left _ 1, Nat.le_refl _⟩

/-- A part that is put into a chain brings no more nodes than it has as one operand. -/
theorem Part.nodeCount_toOperands (p : Part) :
    nodeCountAll (p.toOperands.flatMap fun o => o.toTree.merge .and) ≤ p.toOperand.toTree.nodeCount := by
  cases p with
  | condition c =>
    show nodeCountAll ([Operand.condition c].flatMap fun o => o.toTree.merge .and) ≤ _
    rw [List.flatMap_singleton]
    exact (nodeCount_merge .and _).1
  | chain c =>
    show nodeCountAll (c.operands.flatMap fun o => o.toTree.merge .and) ≤ _
    rw [← Chain.toTrees_eq]
    exact c.nodeCount_toTrees.1
  | filter f =>
    show nodeCountAll ([Operand.group f].flatMap fun o => o.toTree.merge .and) ≤ _
    rw [List.flatMap_singleton]
    exact (nodeCount_merge .and _).1

theorem Part.nodeCountAll_toOperands (ps : List Part) :
    nodeCountAll ((ps.flatMap Part.toOperands).flatMap fun o => o.toTree.merge .and)
      ≤ nodeCountAll (ps.map fun p => p.toOperand.toTree) := by
  induction ps with
  | nil => exact Nat.le_refl _
  | cons p ps ih =>
    have hp := p.nodeCount_toOperands
    rw [List.flatMap_cons, List.flatMap_append, nodeCountAll_append, List.map_cons, nodeCountAll]
    omega

/-- The tree of alternatives has their nodes, and one more at most. -/
theorem nodeCount_ofChains (p q : Part) (ps : List Part) :
    (Filter.ofChains p.toChain ((q :: ps).map Part.toChain)).toTree.nodeCount
      ≤ 1 + nodeCountAll ((p :: q :: ps).map fun p => p.toOperand.toTree) := by
  have hp := (nodeCount_merge .or p.toOperand.toTree).1
  have hrest : (Filter.ofChains q.toChain (ps.map Part.toChain)).toTrees
      = (q :: ps).map fun p => p.toOperand.toTree := by
    rw [Filter.toTrees_eq, Filter.chains_ofChains, ← List.map_cons, List.map_map]
    rfl
  show 1 + nodeCountAll (p.toOperand.toTree.merge .or
      ++ (Filter.ofChains q.toChain (ps.map Part.toChain)).toTrees)
    ≤ 1 + (p.toOperand.toTree.nodeCount + nodeCountAll ((q :: ps).map fun p => p.toOperand.toTree))
  rw [hrest, nodeCountAll_append]
  omega

theorem nodeCount_parts {ts : List Tree} {ps : List Part}
    (h : List.Forall₂ (fun t p => p.toOperand.toTree.nodeCount ≤ t.nodeCount) ts ps) :
    nodeCountAll (ps.map fun p => p.toOperand.toTree) ≤ nodeCountAll ts := by
  induction h with
  | nil => exact Nat.le_refl _
  | cons hp _ ih =>
    rw [List.map_cons, nodeCountAll, nodeCountAll]
    omega

/-- What a tree stands for is sent as a tree that is not larger. -/
theorem nodeCount_part {t : Tree} {p : Part} (h : t.part = .ok p) :
    p.toOperand.toTree.nodeCount ≤ t.nodeCount := by
  refine part_induction (motive := fun t p => p.toOperand.toTree.nodeCount ≤ t.nodeCount)
    ⟨?leaf, ?only, ?chain, ?filter⟩ h
  case leaf =>
    intro l ts c kind condition
    have hone : c.toTree.nodeCount = 1 := nodeCount_of_elements_nil c.label_toTree.2
    show c.toTree.nodeCount ≤ 1 + nodeCountAll ts
    omega
  case only =>
    intro l t p kind hp
    rw [nodeCount_eq ⟨l, [t]⟩, nodeCountAll]
    omega
  case chain =>
    intro l ts ps o os kind many operands hps
    have hes := nodeCount_parts hps
    have hparts := Part.nodeCountAll_toOperands ps
    have hchain := (Chain.ofOperands o os).nodeCount_toTrees.2
    rw [operands] at hparts
    rw [Chain.toTrees_eq, Chain.operands_ofOperands] at hchain
    show (Chain.ofOperands o os).toTree.nodeCount ≤ 1 + nodeCountAll ts
    omega
  case filter =>
    intro l ts p q ps kind first hps
    have hes := nodeCount_parts hps
    have hchains := nodeCount_ofChains p q ps
    show (Filter.ofChains p.toChain ((q :: ps).map Part.toChain)).toTree.nodeCount ≤ 1 + nodeCountAll ts
    omega

/-- What a tree is read as is sent as a tree that is not larger. -/
theorem nodeCount_toFilter {t : Tree} {f : Filter} (h : t.toFilter = .ok f) :
    f.toTree.nodeCount ≤ t.nodeCount := by
  obtain ⟨-, p, hpart, rfl⟩ := toFilter_ok_iff.1 h
  exact nodeCount_part hpart

end TagQuery
