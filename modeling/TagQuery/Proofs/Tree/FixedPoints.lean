import TagQuery.Proofs.Tree.Size

/-!
# Filters in canonical form

What canonical filters look like, said without trees: one operand, with an origin and a plain name in each
condition, and brackets round just the groups that a tree has.

    t.toFilter = .ok f → f.IsCanonical                                        (isCanonical_toFilter)
    f.IsCanonical → f.toTree.nodeCount ≤ maxNodes → f.toTree.toFilter = .ok f (toFilter_toTree)

So they are the fixed points of sending a filter and reading it back (`canonical_fixed_points`).
-/

namespace TagQuery

/-! ## Canonical filters -/

namespace Operand

/-- Brackets round a single alternative. -/
def isAnd : Operand → Bool
  | .group (.single _) => true
  | _ => false

/-- Brackets round several alternatives. -/
def isOr : Operand → Bool
  | .group (.or _ _) => true
  | _ => false

/-- The operands that trees are read as. -/
inductive Canonical : Operand → Prop where
  | condition {c : Condition} (plain : isPlainName c.entity.name = true)
      (origin : c.entity.origin.isSome = true) : Canonical (.condition c)
  /-- Brackets round operands joined by `AND`, each a condition or an `OR` in brackets. -/
  | and {c : Chain} (many : 2 ≤ c.operands.length) (operands : ∀ o ∈ c.operands, Canonical o)
      (apart : ∀ o ∈ c.operands, o.isAnd = false) : Canonical (.group (.single c))
  /-- Brackets round single operands joined by `OR`, the first of them no `OR` in brackets. -/
  | or {f : Filter} (many : 2 ≤ f.chains.length) (single : ∀ c ∈ f.chains, c.isSingle = true)
      (operands : ∀ o, .single o ∈ f.chains → Canonical o)
      (first : ∀ o, f.chains.head? = some (.single o) → o.isOr = false) : Canonical (.group f)

end Operand

/-- The filter is one operand as trees are read. -/
def Filter.IsCanonical (f : Filter) : Prop :=
  ∃ o : Operand, o.Canonical ∧ f = .ofOperand o

/-! ## Operands as parts -/

namespace Operand

/-- The part that an operand is, before it is put into what is around it. -/
def part : Operand → Part
  | .condition c => .condition c
  | .group (.single c) => .chain c
  | .group (.or c rest) => .filter (.or c rest)

theorem toOperand_part (o : Operand) : o.part.toOperand = o := by
  obtain c | c | _ := o <;> rfl

/-- Put into a chain, all but an `AND` is one operand. -/
theorem toOperands_part {o : Operand} (h : o.isAnd = false) : o.part.toOperands = [o] := by
  obtain c | c | _ := o
  · rfl
  · simp [isAnd] at h
  · rfl

/-- What a canonical operand puts into a chain is canonical, and no `AND`. -/
theorem Canonical.toOperands {o : Operand} (h : o.Canonical) :
    ∀ q ∈ o.part.toOperands, q.Canonical ∧ q.isAnd = false := by
  cases h with
  | condition plain origin =>
    intro q hq
    obtain rfl := List.mem_singleton.1 hq
    exact ⟨.condition plain origin, rfl⟩
  | and many operands apart => exact fun q hq => ⟨operands q hq, apart q hq⟩
  | @or f many single operands first =>
    cases f with
    | single c => simp [Filter.chains] at many
    | or c rest =>
      intro q hq
      obtain rfl := List.mem_singleton.1 hq
      exact ⟨.or many single operands first, rfl⟩

theorem isOr_eq_false_iff {o : Operand} : o.isOr = false ↔ ∀ f, o.part ≠ .filter f := by
  obtain c | c | ⟨c, rest⟩ := o
  · exact ⟨fun _ => nofun, fun _ => rfl⟩
  · exact ⟨fun _ => nofun, fun _ => rfl⟩
  · exact ⟨nofun, fun h => absurd rfl (h (.or c rest))⟩

end Operand

/-- Each part puts an operand at least into a chain. -/
theorem length_le_toOperands (os : List Operand) :
    os.length ≤ ((os.map Operand.part).flatMap Part.toOperands).length := by
  induction os with
  | nil => exact Nat.zero_le _
  | cons o os ih =>
    have ho := List.length_pos_iff.2 o.part.toOperands_ne_nil
    rw [List.map_cons, List.flatMap_cons, List.length_append, List.length_cons]
    omega

/-! ## What trees are read as -/

/-- Canonical operands, none of them an `AND`, in brackets. -/
theorem canonical_chain {os qs : List Operand} {o : Operand} (h : ∀ q ∈ os, q.Canonical)
    (many : os.length ≠ 1)
    (operands : (os.map Operand.part).flatMap Part.toOperands = o :: qs) :
    (Operand.group (.single (.ofOperands o qs))).Canonical := by
  have hall : ∀ q ∈ o :: qs, q.Canonical ∧ q.isAnd = false := by
    intro q hq
    rw [← operands, List.flatMap_map] at hq
    obtain ⟨r, hr, hq⟩ := List.mem_flatMap.1 hq
    exact (h r hr).toOperands q hq
  have hlength := length_le_toOperands os
  have hne : os ≠ [] := by
    rintro rfl
    simp at operands
  have hpos := List.length_pos_iff.2 hne
  rw [operands] at hlength
  refine .and ?_ ?_ ?_ <;> rw [Chain.operands_ofOperands]
  · omega
  · exact fun q hq => (hall q hq).1
  · exact fun q hq => (hall q hq).2

/-- Canonical operands, the first of them no `OR`, as alternatives in brackets. -/
theorem canonical_filter {o q : Operand} {os : List Operand} (h : ∀ r ∈ o :: q :: os, r.Canonical)
    (first : o.isOr = false) :
    (Operand.group (.ofChains (.single o) ((q :: os).map .single))).Canonical := by
  refine .or ?_ ?_ ?_ ?_ <;> rw [Filter.chains_ofChains, ← List.map_cons]
  · rw [List.length_map]
    exact Nat.le_add_left 2 _
  · intro c hc
    obtain ⟨r, -, rfl⟩ := List.mem_map.1 hc
    rfl
  · intro r hr
    obtain ⟨r', hr', heq⟩ := List.mem_map.1 hr
    obtain rfl := Chain.single.inj heq
    exact h r' hr'
  · intro r hr
    obtain rfl := Chain.single.inj (Option.some.inj hr)
    exact first

theorem map_toChain (os : List Operand) : (os.map Operand.part).map Part.toChain = os.map .single := by
  rw [List.map_map]
  exact congrArg (os.map ·) (funext fun o => congrArg Chain.single o.toOperand_part)

theorem canonical_parts {ts : List Tree} {ps : List Part}
    (h : List.Forall₂ (fun _ p => ∃ o : Operand, o.Canonical ∧ o.part = p) ts ps) :
    ∃ os : List Operand, (∀ o ∈ os, o.Canonical) ∧ os.map Operand.part = ps := by
  induction h with
  | nil => exact ⟨[], by simp, rfl⟩
  | cons hp _ ih =>
    obtain ⟨o, ho, rfl⟩ := hp
    obtain ⟨os, hos, rfl⟩ := ih
    exact ⟨o :: os, List.forall_mem_cons.2 ⟨ho, hos⟩, rfl⟩

/-- A tree stands for a canonical operand.  The part of the operand says what it is inside another
group, where an `AND` loses its brackets. -/
theorem canonical_part {t : Tree} {p : Part} (h : t.part = .ok p) :
    ∃ o : Operand, o.Canonical ∧ o.part = p := by
  refine part_induction (motive := fun _ p => ∃ o : Operand, o.Canonical ∧ o.part = p)
    ⟨?leaf, ?only, ?chain, ?filter⟩ h
  case leaf =>
    intro l ts c kind condition
    obtain ⟨-, hplain, ⟨o, -, horigin⟩, -⟩ := Label.condition_ok_iff.1 condition
    exact ⟨.condition c, .condition hplain (by rw [horigin]; rfl), rfl⟩
  case only =>
    intro l t p kind hp
    exact hp
  case chain =>
    intro l ts ps o os kind many operands hps
    obtain ⟨qs, hcanonical, rfl⟩ := canonical_parts hps
    rw [List.length_map] at many
    exact ⟨_, canonical_chain hcanonical many operands, rfl⟩
  case filter =>
    intro l ts p q ps kind first hps
    obtain ⟨os, hcanonical, hos⟩ := canonical_parts hps
    obtain ⟨o, qs, rfl, rfl, hqs⟩ := List.map_eq_cons_iff.1 hos
    obtain ⟨r, rs, rfl, rfl, rfl⟩ := List.map_eq_cons_iff.1 hqs
    refine ⟨_, canonical_filter hcanonical (Operand.isOr_eq_false_iff.2 first), ?_⟩
    rw [← List.map_cons, map_toChain, Part.toChain, o.toOperand_part]
    rfl

/-- What a tree is read as is canonical. -/
theorem isCanonical_toFilter {t : Tree} {f : Filter} (h : t.toFilter = .ok f) : f.IsCanonical := by
  obtain ⟨-, p, hpart, rfl⟩ := Tree.toFilter_ok_iff.1 h
  obtain ⟨o, ho, rfl⟩ := canonical_part hpart
  exact ⟨o, ho, by rw [o.toOperand_part]⟩

/-! ## What canonical filters are sent as -/

theorem Chain.ofOperands_eq : ∀ {c : Chain} {o : Operand} {os : List Operand},
    c.operands = o :: os → Chain.ofOperands o os = c
  | .single p, o, os, h => by
    obtain ⟨rfl, rfl⟩ := List.cons.inj h
    rfl
  | .and p rest, o, os, h => by
    obtain ⟨rfl, rfl⟩ := List.cons.inj h
    obtain ⟨q, qs, hrest⟩ := List.exists_cons_of_ne_nil rest.operands_ne_nil
    rw [hrest, Chain.ofOperands, Chain.ofOperands_eq hrest]

theorem Filter.ofChains_eq : ∀ {f : Filter} {c : Chain} {cs : List Chain},
    f.chains = c :: cs → Filter.ofChains c cs = f
  | .single d, c, cs, h => by
    obtain ⟨rfl, rfl⟩ := List.cons.inj h
    rfl
  | .or d rest, c, cs, h => by
    obtain ⟨rfl, rfl⟩ := List.cons.inj h
    obtain ⟨e, es, hrest⟩ := List.exists_cons_of_ne_nil rest.chains_ne_nil
    rw [hrest, Filter.ofChains, Filter.ofChains_eq hrest]

/-- Alternatives that are single operands. -/
theorem exists_singles {cs : List Chain} (h : ∀ c ∈ cs, c.isSingle = true) :
    ∃ os : List Operand, cs = os.map .single := by
  induction cs with
  | nil => exact ⟨[], rfl⟩
  | cons c cs ih =>
    obtain ⟨hc, hcs⟩ := List.forall_mem_cons.1 h
    obtain ⟨os, rfl⟩ := ih hcs
    cases c with
    | single o => exact ⟨o :: os, rfl⟩
    | and o rest => simp [Chain.isSingle] at hc

namespace Operand

/-- The tree of a canonical operand is the group that its brackets stand for. -/
theorem Canonical.isGroupOf {o : Operand} (h : o.Canonical) :
    o.toTree.label.isGroupOf .and = o.isAnd ∧ o.toTree.label.isGroupOf .or = o.isOr := by
  cases h with
  | @condition c plain origin => exact ⟨Tree.isGroupOf_leaf c .and, Tree.isGroupOf_leaf c .or⟩
  | @and c many operands apart =>
    cases c with
    | single o => simp [Chain.operands] at many
    | and o rest => exact ⟨rfl, rfl⟩
  | @or f many single operands first =>
    cases f with
    | single c => simp [Filter.chains] at many
    | or c rest => exact ⟨rfl, rfl⟩

theorem parts_toTree {os : List Operand} (h : ∀ o ∈ os, o.toTree.part = .ok o.part) :
    Tree.parts (os.map toTree) = (os.map part).map .ok := by
  induction os with
  | nil => rfl
  | cons o os ih =>
    obtain ⟨ho, hos⟩ := List.forall_mem_cons.1 h
    rw [List.map_cons, Tree.parts, ho, ih hos]
    rfl

/-- Operands that are no `AND` are the elements of the group that they are sent in. -/
theorem flatMap_merge_toTree {os : List Operand} (h : ∀ o ∈ os, o.Canonical)
    (apart : ∀ o ∈ os, o.isAnd = false) :
    os.flatMap (fun o => o.toTree.merge .and) = os.map toTree := by
  have hapart : ∀ t ∈ os.map toTree, t.label.isGroupOf .and = false := by
    intro t ht
    obtain ⟨o, ho, rfl⟩ := List.mem_map.1 ht
    rw [(h o ho).isGroupOf.1, apart o ho]
  rw [← flatMap_merge hapart, List.flatMap_map]

/-- Operands that are no `AND` are put into a chain as they are. -/
theorem flatMap_toOperands_part {os : List Operand} (apart : ∀ o ∈ os, o.isAnd = false) :
    (os.map part).flatMap Part.toOperands = os := by
  induction os with
  | nil => rfl
  | cons o os ih =>
    obtain ⟨ho, hos⟩ := List.forall_mem_cons.1 apart
    rw [List.map_cons, List.flatMap_cons, toOperands_part ho, ih hos]
    rfl

theorem part_toTree_condition {c : Condition} (plain : isPlainName c.entity.name = true)
    (origin : c.entity.origin.isSome = true) : c.toTree.part = .ok (.condition c) := by
  have hcondition := condition_label plain
  rw [Condition.stored_eq origin] at hcondition
  exact part_leaf c.label_toTree.1 hcondition

theorem part_toTree_and {c : Chain} (many : 2 ≤ c.operands.length)
    (operands : ∀ o ∈ c.operands, o.Canonical) (apart : ∀ o ∈ c.operands, o.isAnd = false)
    (parts : ∀ o ∈ c.operands, o.toTree.part = .ok o.part) : c.toTree.part = .ok (.chain c) := by
  obtain ⟨o, os, hos⟩ := List.exists_cons_of_ne_nil c.operands_ne_nil
  have htree : c.toTree = .group (.known .and) c.toTrees := by
    cases c with
    | single o => simp [Chain.operands] at many
    | and o rest => rfl
  have hchain : Part.chain c = .chain (.ofOperands o os) := by rw [Chain.ofOperands_eq hos]
  rw [htree, Chain.toTrees_eq, flatMap_merge_toTree operands apart, Tree.group, Tree.part,
    parts_toTree parts, part_ok_iff, hchain]
  refine .chain rfl ?_ ?_
  · rw [List.length_map]
    omega
  · rw [flatMap_toOperands_part apart, hos]

theorem part_toTree_or {f : Filter} {o q : Operand} {os : List Operand}
    (chains : f.chains = (o :: q :: os).map .single) (canonical : o.Canonical)
    (first : o.isOr = false) (parts : ∀ r ∈ o :: q :: os, r.toTree.part = .ok r.part) :
    f.toTree.part = .ok (.filter f) := by
  obtain rfl : Filter.ofChains (.single o) ((q :: os).map .single) = f := Filter.ofChains_eq chains
  have hmerge : o.toTree.merge .or = [o.toTree] :=
    Tree.merge_of_not (by rw [canonical.isGroupOf.2, first])
  have hrest : (Filter.ofChains (.single q) (os.map .single)).toTrees = (q :: os).map toTree := by
    rw [Filter.toTrees_eq, Filter.chains_ofChains, ← List.map_cons, List.map_map]
    rfl
  have htree : (Filter.ofChains (.single o) ((q :: os).map .single)).toTree
      = .group (.known .or) ((o :: q :: os).map toTree) := by
    show Tree.group (.known .or)
      (o.toTree.merge .or ++ (Filter.ofChains (.single q) (os.map .single)).toTrees) = _
    rw [hmerge, hrest]
    rfl
  have hchains : Filter.ofChains (.single o) ((q :: os).map .single)
      = .ofChains o.part.toChain (((q :: os).map part).map Part.toChain) := by
    rw [map_toChain, Part.toChain, o.toOperand_part]
  rw [htree, Tree.group, Tree.part, parts_toTree parts, part_ok_iff, hchains]
  exact .filter rfl (isOr_eq_false_iff.1 first)

/-- The tree of a canonical operand stands for just that operand. -/
theorem Canonical.part_toTree {o : Operand} (h : o.Canonical) : o.toTree.part = .ok o.part := by
  induction h with
  | condition plain origin => exact part_toTree_condition plain origin
  | and many operands apart parts => exact part_toTree_and many operands apart parts
  | @or f many single operands first parts =>
    obtain ⟨os, hos⟩ := exists_singles single
    rw [hos] at many operands first parts
    have hmem : ∀ r ∈ os, Chain.single r ∈ os.map .single := fun r hr => List.mem_map_of_mem hr
    rcases os with _ | ⟨o, _ | ⟨q, os⟩⟩
    · simp at many
    · simp at many
    · have hpart := part_toTree_or hos (operands o (hmem o List.mem_cons_self)) (first o rfl)
        fun r hr => parts r (hmem r hr)
      cases f with
      | single c => simp [Filter.chains] at hos
      | or c rest => exact hpart

/-- Canonical operands have trees of their own. -/
theorem Canonical.toTree_inj {o q : Operand} (ho : o.Canonical) (hq : q.Canonical)
    (h : o.toTree = q.toTree) : o = q := by
  have hpart := ho.part_toTree
  rw [h, hq.part_toTree] at hpart
  rw [← o.toOperand_part, ← q.toOperand_part, Except.ok.inj hpart]

end Operand

/-- Canonical filters have trees of their own. -/
theorem Filter.IsCanonical.toTree_inj {f g : Filter} (hf : f.IsCanonical) (hg : g.IsCanonical)
    (h : f.toTree = g.toTree) : f = g := by
  obtain ⟨o, ho, rfl⟩ := hf
  obtain ⟨q, hq, rfl⟩ := hg
  have htree : o.toTree = q.toTree := h
  rw [ho.toTree_inj hq htree]

/-- A canonical filter is read back from its tree, if that is not too large. -/
theorem toFilter_toTree {f : Filter} (h : f.IsCanonical) (small : f.toTree.nodeCount ≤ maxNodes) :
    f.toTree.toFilter = .ok f := by
  obtain ⟨o, ho, rfl⟩ := h
  exact Tree.toFilter_ok_iff.2 ⟨small, o.part, ho.part_toTree, by rw [o.toOperand_part]⟩

/-- **Canonical filters are the fixed points** of sending a filter and reading it back: what a tree is
read as is canonical, and is read back from its own tree; and a filter with a tree that is not too large
is read back from it if and only if it is canonical. -/
theorem canonical_fixed_points :
    (∀ (t : Tree) (f : Filter), t.toFilter = .ok f → f.IsCanonical ∧ f.toTree.toFilter = .ok f)
      ∧ ∀ f : Filter, f.toTree.nodeCount ≤ maxNodes →
        (f.toTree.toFilter = .ok f ↔ f.IsCanonical) := by
  constructor
  · intro t f h
    have hcanonical := isCanonical_toFilter h
    have hsmall := (Tree.toFilter_ok_iff.1 h).1
    exact ⟨hcanonical, toFilter_toTree hcanonical (Nat.le_trans (nodeCount_toFilter h) hsmall)⟩
  · intro f hsmall
    exact ⟨isCanonical_toFilter, fun h => toFilter_toTree h hsmall⟩

/-! ## A tree that changes -/

/-- A leaf with a key that its string value does not repeat. -/
def bareKeyed : Tree :=
  ⟨{ kind := some (.known .tagFilter), name := some "b", entity := some (.known .source),
     operator := some (.known .equals), key := some "k", stringValue := some "x" }, []⟩

/-- An `OR` behind an `AND` of one element, in an `AND`. -/
def wrapped : Tree :=
  .group (.known .and) [bareKeyed, .group (.known .and) [.group (.known .or) [bareKeyed, bareKeyed]]]

/-- What such a tree is read as. -/
def unwrapped : Filter :=
  let o : Operand := .condition (.compare ⟨"b", some "k", some .source⟩ .equals (.string "x"))
  .ofOperand (.group (.single (.and o (.single (.group (.or (.single o) (.single (.single o))))))))

/-- The tree is not sent again as it was, but its filter is read back. -/
theorem canonical_fixed_points_wrapped :
    wrapped.toFilter = .ok unwrapped ∧ unwrapped.toTree ≠ wrapped
      ∧ unwrapped.IsCanonical ∧ unwrapped.toTree.toFilter = .ok unwrapped
      ∧ unwrapped.toTree.nodeCount ≤ maxNodes
      ∧ (unwrapped.toTree.toFilter = .ok unwrapped ↔ unwrapped.IsCanonical) := by
  have hread : wrapped.toFilter = .ok unwrapped := by decide +kernel
  have hother : unwrapped.toTree ≠ wrapped := by decide +kernel
  have hsmall : unwrapped.toTree.nodeCount ≤ maxNodes := by decide +kernel
  obtain ⟨hcanonical, hagain⟩ := canonical_fixed_points.1 wrapped unwrapped hread
  exact ⟨hread, hother, hcanonical, hagain, hsmall, canonical_fixed_points.2 unwrapped hsmall⟩

end TagQuery
