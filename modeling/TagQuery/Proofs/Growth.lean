import TagQuery.Proofs.Normalize
import TagQuery.Proofs.Tree.Size
import TagQuery.Proofs.Tree.Unchanged

/-!
# How much a filter grows

The tree of a filter has a leaf for each condition, and fewer groups than leaves, as each of them has
two elements at least.  Reading a tree and sending it again adds no node:

    f.toTree.nodeCount ≤ 2 * f.conditions.length - 1
    t.toFilter = .ok f → f.toTree.nodeCount ≤ t.nodeCount                            (sent_size_bounded)

A bracket stands for two groups at most, an `AND` and the `OR` that it is an element of, so that an
operand is sent twice as deep as it is, a chain one deeper, and a filter one deeper than its chains.
The stairs are as steep as that at every depth:

    f.toTree.depth ≤ 2 * f.depth + 2                                              (Filter.depth_toTree_le)
    f.toTree.toFilter = .ok g → g.depth ≤ 2 * f.depth + 2                        (canonical_depth_bounded)
-/

namespace TagQuery

open TagQuery.Tree

/-! ## Size -/

/-- The groups of a filter's tree have two elements at least. -/
theorem Filter.two_le_elements {f : Filter} {u : Tree} {c : Connective} (hu : u ∈ f.toTree.nodes)
    (group : u.label.isGroupOf c = true) : 2 ≤ u.elements.length := by
  have hsent := f.canonical_toTree.asSent u hu
  cases c with
  | and => exact (hsent.and group).1
  | or => exact (hsent.or group).1

theorem Filter.nodeCount_toTree_le (f : Filter) : f.toTree.nodeCount ≤ 2 * f.conditions.length - 1 := by
  have hnodes := nodeCount_le f.canonical_toTree
  rw [f.leaves_toTree, List.length_map] at hnodes
  omega

/-- **Trees stay small.**  The tree of a filter has one leaf for each condition and two elements at
least in each group, so that it has fewer than twice as many nodes as the filter has conditions, and one
of a filter that is not too long is not too large.  What a tree is read as is sent as a tree that is not
larger. -/
theorem sent_size_bounded :
    (∀ f : Filter, f.toTree.nodeCount ≤ 2 * f.conditions.length - 1
        ∧ (∀ u ∈ f.toTree.nodes, ∀ c, u.label.isGroupOf c = true → 2 ≤ u.elements.length)
        ∧ f.toTree.leaves = f.conditions.map (fun c => c.toTree.label)
        ∧ (f.conditions.length ≤ maxConditions → f.toTree.nodeCount ≤ maxNodes))
      ∧ ∀ (t : Tree) (f : Filter), t.toFilter = .ok f → f.toTree.nodeCount ≤ t.nodeCount := by
  constructor
  · intro f
    have hnodes := f.nodeCount_toTree_le
    refine ⟨hnodes, fun u hu c hc => Filter.two_le_elements hu hc, f.leaves_toTree, fun hcount => ?_⟩
    unfold maxNodes
    omega
  · intro t f h
    exact nodeCount_toFilter h

/-- Each group of the stairs' tree has just two elements, so that the tree is as large as it can be. -/
theorem nodeCount_stairs (n : Nat) :
    (stairs n).toTree.nodeCount = 2 * (stairs n).conditions.length - 1 := by
  have hcount : ∀ n, (stairs n).toTree.nodeCount = 4 * n + 5 := by
    intro n
    induction n with
    | zero => rfl
    | succ n ih =>
      have hleaf : stair.toTree.nodeCount = 1 := rfl
      rw [toTree_stairs]
      simp only [group, nodeCount, nodeCountAll, hleaf, ih]
      omega
  rw [hcount, conditions_stairs, List.length_replicate]
  omega

/-- Two alternatives in groups of one element. -/
def boxed : Tree :=
  let box (t : Tree) : Tree := group (.known .and) [t]
  box (group (.known .or) [box stair.toTree, box (box stair.toTree)])

/-- Stairs of almost as many conditions as a filter may have, and a tree that comes back without its
groups of one. -/
theorem sent_size_bounded_stairs :
    (stairs 510).conditions.length ≤ maxConditions ∧ (stairs 510).toTree.nodeCount ≤ maxNodes
      ∧ (stairs 510).toTree.nodeCount = 2 * (stairs 510).conditions.length - 1
      ∧ ∃ f, boxed.toFilter = .ok f ∧ f.toTree.nodeCount ≤ boxed.nodeCount ∧ f.toTree ≠ boxed := by
  have hcount : (stairs 510).conditions.length ≤ maxConditions := by
    rw [conditions_stairs, List.length_replicate]
    decide
  have hread : boxed.toFilter = .ok (.ofOperand (.group
      (.or (.single (.condition stair.stored)) (.single (.single (.condition stair.stored)))))) := by
    decide +kernel
  exact ⟨hcount, (sent_size_bounded.1 (stairs 510)).2.2.2 hcount, nodeCount_stairs 510, _, hread,
    sent_size_bounded.2 _ _ hread, by decide +kernel⟩

/-! ## Depth -/

namespace Tree

theorem depthAll_append (ts us : List Tree) :
    depthAll (ts ++ us) = max (depthAll ts) (depthAll us) := by
  induction ts with
  | nil => simp [depthAll]
  | cons t ts ih =>
    rw [List.cons_append, depthAll, depthAll, ih]
    omega

theorem depth_group_le (c : Open Connective) (ts : List Tree) :
    (group c ts).depth ≤ depthAll ts + 1 := by
  cases ts with
  | nil => exact Nat.zero_le _
  | cons t ts => exact Nat.le_refl _

/-- What is merged into a group is no deeper there than it was. -/
theorem depthAll_merge_le (c : Connective) (t : Tree) : depthAll (t.merge c) ≤ t.depth := by
  cases hc : t.label.isGroupOf c with
  | false =>
    rw [merge_of_not hc, depthAll, depthAll]
    omega
  | true =>
    obtain ⟨l, elements⟩ := t
    rw [merge_of_isGroupOf hc]
    cases elements with
    | nil => exact Nat.zero_le _
    | cons u us => exact Nat.le_succ _

end Tree

mutual

/-- Alternatives are sent one deeper than their chains. -/
theorem Filter.depth_toTree_le : ∀ f : Filter, f.toTree.depth ≤ 2 * f.depth + 2
  | .single c => by
    have hc := c.depth_toTree_le
    show c.toTree.depth ≤ 2 * c.depth + 2
    omega
  | .or c rest => by
    have hc := c.depth_toTree_le
    have hmerge := depthAll_merge_le .or c.toTree
    have hrest := rest.depthAll_toTrees_le
    have hgroup := depth_group_le (.known .or) (c.toTree.merge .or ++ rest.toTrees)
    rw [depthAll_append] at hgroup
    show (group (.known .or) (c.toTree.merge .or ++ rest.toTrees)).depth ≤ 2 * max c.depth rest.depth + 2
    omega

theorem Filter.depthAll_toTrees_le : ∀ f : Filter, depthAll f.toTrees ≤ 2 * f.depth + 1
  | .single c => by
    have hc := c.depth_toTree_le
    show max c.toTree.depth 0 ≤ 2 * c.depth + 1
    omega
  | .or c rest => by
    have hc := c.depth_toTree_le
    have hrest := rest.depthAll_toTrees_le
    show max c.toTree.depth (depthAll rest.toTrees) ≤ 2 * max c.depth rest.depth + 1
    omega

/-- A chain is sent one deeper than its operands. -/
theorem Chain.depth_toTree_le : ∀ c : Chain, c.toTree.depth ≤ 2 * c.depth + 1
  | .single o => by
    have ho := o.depth_toTree_le
    show o.toTree.depth ≤ 2 * o.depth + 1
    omega
  | .and o rest => by
    have ho := o.depth_toTree_le
    have hmerge := depthAll_merge_le .and o.toTree
    have hrest := rest.depthAll_toTrees_le
    have hgroup := depth_group_le (.known .and) (o.toTree.merge .and ++ rest.toTrees)
    rw [depthAll_append] at hgroup
    show (group (.known .and) (o.toTree.merge .and ++ rest.toTrees)).depth ≤ 2 * max o.depth rest.depth + 1
    omega

theorem Chain.depthAll_toTrees_le : ∀ c : Chain, depthAll c.toTrees ≤ 2 * c.depth
  | .single o => by
    have ho := o.depth_toTree_le
    have hmerge := depthAll_merge_le .and o.toTree
    show depthAll (o.toTree.merge .and) ≤ 2 * o.depth
    omega
  | .and o rest => by
    have ho := o.depth_toTree_le
    have hmerge := depthAll_merge_le .and o.toTree
    have hrest := rest.depthAll_toTrees_le
    show depthAll (o.toTree.merge .and ++ rest.toTrees) ≤ 2 * max o.depth rest.depth
    rw [depthAll_append]
    omega

/-- A pair of brackets stands for two groups at most. -/
theorem Operand.depth_toTree_le : ∀ o : Operand, o.toTree.depth ≤ 2 * o.depth
  | .condition c => by
    show c.toTree.depth ≤ 0
    rw [depth_of_elements_nil c.label_toTree.2]
  | .group f => by
    have hf := f.depth_toTree_le
    show f.toTree.depth ≤ 2 * (f.depth + 1)
    omega

end

/-- The canonical form of a filter is nested as deep as the filter's tree. -/
theorem depth_canonical {f g : Filter} (h : f.toTree.toFilter = .ok g) : g.depth = f.toTree.depth := by
  obtain ⟨hsmall, -⟩ := toFilter_ok_iff.1 h
  obtain ⟨k, hk, -, hdepth⟩ := toFilter_canonical f.canonical_toTree (plain_leaves h) hsmall
  rw [h] at hk
  rw [Except.ok.inj hk, hdepth]

/-- The stairs have a canonical form that is twice as deep as they are, and two deeper. -/
theorem exists_canonical_stairs {n : Nat} (h : n ≤ maxDepth) :
    ∃ g, (stairs n).toTree.toFilter = .ok g ∧ g.depth = 2 * n + 2 := by
  obtain ⟨g, hcanonical, -, hdepth⟩ := exists_canonical (parse_stairs h)
  exact ⟨g, hcanonical, hdepth.trans (depth_toTree_stairs n)⟩

/-- **Canonical forms are at most twice as deep, and two more.**  At each depth that can be read there
is a filter for which it is just that.  So the canonical text of a filter with at most 31 nested
brackets is read again, and is its own canonical text. -/
theorem canonical_depth_bounded :
    (∀ f g : Filter, f.toTree.toFilter = .ok g → g.depth ≤ 2 * f.depth + 2)
      ∧ (∀ d, d ≤ maxDepth → ∃ text f g, Filter.parse text = .ok f ∧ f.depth = d
          ∧ f.toTree.toFilter = .ok g ∧ g.depth = 2 * d + 2)
      ∧ ∀ (text : String) (f : Filter), Filter.parse text = .ok f → f.depth ≤ 31 →
          ∃ c g, normalize text = .ok c ∧ Filter.parse c = .ok g ∧ normalize c = .ok c := by
  refine ⟨fun f g h => ?_, fun d hd => ?_, fun text f hread hdepth => ?_⟩
  · rw [depth_canonical h]
    exact f.depth_toTree_le
  · obtain ⟨g, hcanonical, hdepth⟩ := exists_canonical_stairs hd
    exact ⟨_, stairs d, g, parse_stairs hd, depth_stairs d, hcanonical, hdepth⟩
  · obtain ⟨g, hcanonical, htree, hg⟩ := exists_canonical hread
    have hle := f.depth_toTree_le
    have hagain := (parse_canonical_iff hread hcanonical hg).2 (by unfold maxDepth; omega)
    exact ⟨g.text, g, normalize_eq hread hcanonical, hagain, normalize_eq hagain (htree ▸ hcanonical)⟩

/-- Stairs of thirty-one brackets are sent as deep as a filter may be nested, and read again. -/
theorem canonical_depth_bounded_stairs :
    Filter.parse (stairs 31).text = .ok (stairs 31) ∧ (stairs 31).depth ≤ 31
      ∧ (∃ g, (stairs 31).toTree.toFilter = .ok g ∧ g.depth ≤ 2 * 31 + 2)
      ∧ (∃ c g, normalize (stairs 31).text = .ok c ∧ Filter.parse c = .ok g ∧ normalize c = .ok c)
      ∧ 64 ≤ maxDepth ∧ ∃ text f g, Filter.parse text = .ok f ∧ f.depth = 64
          ∧ f.toTree.toFilter = .ok g ∧ g.depth = 2 * 64 + 2 := by
  have hread := parse_stairs (n := 31) (by decide)
  have hdepth := depth_stairs 31
  obtain ⟨g, hcanonical, -⟩ := exists_canonical hread
  have hbound := canonical_depth_bounded.1 _ _ hcanonical
  rw [hdepth] at hbound
  exact ⟨hread, hdepth.le, ⟨g, hcanonical, hbound⟩, canonical_depth_bounded.2.2 _ _ hread hdepth.le,
    by decide, canonical_depth_bounded.2.1 64 (by decide)⟩

end TagQuery
