import TagQuery.Proofs.Tree.Parts

/-!
# Canonical trees

The trees that filters are sent as: groups have two elements at least, none of an `AND` is an `AND`, and the
first of an `OR` is no `OR`.

    Canonical f.toTree                                                    (canonical_toTree)
    Canonical t → t.nodeCount + 1 ≤ 2 * t.leaves.length                   (nodeCount_le)

A canonical tree with plain names is read as a filter, which is sent as that tree again, and whose brackets
are nested as deep as the tree is (`toFilter_canonical`).
-/

namespace TagQuery

namespace Tree

/-! ## Depth -/

mutual

/-- How many groups are around the deepest node. -/
def depth : Tree → Nat
  | ⟨_, []⟩ => 0
  | ⟨_, t :: ts⟩ => max t.depth (depthAll ts) + 1

def depthAll : List Tree → Nat
  | [] => 0
  | t :: ts => max t.depth (depthAll ts)

end

theorem depth_of_ne_nil {l : Label} {ts : List Tree} (h : ts ≠ []) :
    depth ⟨l, ts⟩ = depthAll ts + 1 := by
  obtain ⟨t, ts, rfl⟩ := List.exists_cons_of_ne_nil h
  rfl

theorem depthAll_eq (ts : List Tree) : depthAll ts = (ts.map depth).foldr max 0 := by
  induction ts with
  | nil => rfl
  | cons t ts ih => simp [depthAll, ih]

/-! ## Canonical trees -/

/-- The trees that filters are sent as. -/
inductive Canonical : Tree → Prop where
  | leaf (c : Condition) : Canonical c.toTree
  | and {ts : List Tree} (many : 2 ≤ ts.length) (elements : ∀ t ∈ ts, Canonical t)
      (apart : ∀ t ∈ ts, t.label.isGroupOf .and = false) : Canonical (group (.known .and) ts)
  | or {ts : List Tree} (many : 2 ≤ ts.length) (elements : ∀ t ∈ ts, Canonical t)
      (first : ∀ t ∈ ts.head?, t.label.isGroupOf .or = false) : Canonical (group (.known .or) ts)

theorem isGroupOf_leaf (c : Condition) (d : Connective) : c.toTree.label.isGroupOf d = false := by
  have h := c.label_toTree.1
  cases hd : c.toTree.label.isGroupOf d with
  | false => rfl
  | true => simp [isTagFilter_of_isGroupOf hd] at h

theorem isGroupOf_group (c d : Connective) (ts : List Tree) :
    (group (.known c) ts).label.isGroupOf d = decide (c = d) := by
  cases c <;> cases d <;> rfl

section

variable {t : Tree} {c : Connective}

theorem merge_of_isGroupOf (h : t.label.isGroupOf c = true) : t.merge c = t.elements :=
  if_pos h

theorem merge_of_not (h : t.label.isGroupOf c = false) : t.merge c = [t] :=
  if_neg (by simp [h])

/-- Merging leaves no `AND` and something. -/
theorem merge_and (h : Canonical t) :
    (∀ u ∈ t.merge .and, Canonical u ∧ u.label.isGroupOf .and = false) ∧ t.merge .and ≠ [] := by
  cases hand : t.label.isGroupOf .and with
  | false =>
    rw [merge_of_not hand]
    simp [h, hand]
  | true =>
    rw [merge_of_isGroupOf hand]
    cases h with
    | leaf c => simp [isGroupOf_leaf] at hand
    | and many elements apart =>
      refine ⟨fun u hu => ⟨elements u hu, apart u hu⟩, ?_⟩
      exact List.ne_nil_of_length_pos (by simp only [group]; omega)
    | or => simp [isGroupOf_group] at hand

/-- Merging leaves no `OR` in front, and something. -/
theorem merge_or (h : Canonical t) :
    (∀ u ∈ t.merge .or, Canonical u) ∧ t.merge .or ≠ []
      ∧ ∀ u ∈ (t.merge .or).head?, u.label.isGroupOf .or = false := by
  cases hor : t.label.isGroupOf .or with
  | false =>
    rw [merge_of_not hor]
    simp [h, hor]
  | true =>
    rw [merge_of_isGroupOf hor]
    cases h with
    | leaf c => simp [isGroupOf_leaf] at hor
    | and => simp [isGroupOf_group] at hor
    | or many elements first =>
      exact ⟨elements, List.ne_nil_of_length_pos (by simp only [group]; omega), first⟩

end

end Tree

open TagQuery.Tree

theorem Filter.toTrees_ne_nil (f : Filter) : f.toTrees ≠ [] := by
  cases f <;> simp [Filter.toTrees]

mutual

theorem Filter.canonical_toTree : ∀ f : Filter, Canonical f.toTree
  | .single c => c.canonical_toTree
  | .or c rest => by
    obtain ⟨helements, hne, hfirst⟩ := merge_or c.canonical_toTree
    have hlength := List.length_pos_iff.2 hne
    have hrest := List.length_pos_iff.2 rest.toTrees_ne_nil
    refine .or ?_ ?_ ?_
    · rw [List.length_append]
      omega
    · intro t ht
      rcases List.mem_append.1 ht with ht | ht
      · exact helements t ht
      · exact rest.canonical_toTrees t ht
    · intro t ht
      obtain ⟨u, us, hmerge⟩ := List.exists_cons_of_ne_nil hne
      rw [hmerge] at ht hfirst
      exact hfirst t ht

theorem Filter.canonical_toTrees : ∀ f : Filter, ∀ t ∈ f.toTrees, Canonical t
  | .single c => by
    intro t ht
    obtain rfl := List.mem_singleton.1 ht
    exact c.canonical_toTree
  | .or c rest => by
    intro t ht
    rcases List.mem_cons.1 ht with rfl | ht
    · exact c.canonical_toTree
    · exact rest.canonical_toTrees t ht

theorem Chain.canonical_toTree : ∀ c : Chain, Canonical c.toTree
  | .single o => o.canonical_toTree
  | .and o rest => by
    obtain ⟨helements, hne⟩ := merge_and o.canonical_toTree
    obtain ⟨hrest, hne'⟩ := rest.canonical_toTrees
    have hlength := List.length_pos_iff.2 hne
    have hlength' := List.length_pos_iff.2 hne'
    have hall : ∀ t ∈ o.toTree.merge .and ++ rest.toTrees,
        Canonical t ∧ t.label.isGroupOf .and = false := by
      intro t ht
      rcases List.mem_append.1 ht with ht | ht
      · exact helements t ht
      · exact hrest t ht
    refine .and ?_ (fun t ht => (hall t ht).1) (fun t ht => (hall t ht).2)
    rw [List.length_append]
    omega

theorem Chain.canonical_toTrees : ∀ c : Chain,
    (∀ t ∈ c.toTrees, Canonical t ∧ t.label.isGroupOf .and = false) ∧ c.toTrees ≠ []
  | .single o => merge_and o.canonical_toTree
  | .and o rest => by
    obtain ⟨helements, hne⟩ := merge_and o.canonical_toTree
    refine ⟨?_, by simp [Chain.toTrees, hne]⟩
    intro t ht
    rcases List.mem_append.1 ht with ht | ht
    · exact helements t ht
    · exact rest.canonical_toTrees.1 t ht

theorem Operand.canonical_toTree : ∀ o : Operand, Canonical o.toTree
  | .condition c => .leaf c
  | .group f => f.canonical_toTree

end

/-! ## Reading a canonical tree -/

/-- The entity with the origin under which it is stored. -/
def Entity.stored (e : Entity) : Entity :=
  { e with origin := some (e.origin.getD .destination) }

/-- The condition with the origin under which it is stored. -/
def Condition.stored : Condition → Condition
  | .compare e op v => .compare e.stored op v
  | .test e op => .test e.stored op

theorem Condition.entity_stored (c : Condition) : c.stored.entity = c.entity.stored := by
  cases c <;> rfl

/-- A condition with an origin is stored as it is. -/
theorem Condition.stored_eq {c : Condition} (h : c.entity.origin.isSome = true) : c.stored = c := by
  obtain ⟨o, horigin⟩ := Option.isSome_iff_exists.1 h
  obtain ⟨⟨name, key, _⟩, op, v⟩ | ⟨⟨name, key, _⟩, op⟩ := c <;>
  · obtain rfl : _ = some o := horigin
    rfl

theorem Condition.toTree_stored (c : Condition) : c.stored.toTree = c.toTree := by
  obtain ⟨⟨name, key, _ | o⟩, op, v⟩ | ⟨⟨name, key, _ | o⟩, op⟩ := c <;> rfl

theorem stripKey_append (key text : List Char) :
    Label.stripKey key (key ++ '=' :: text) = text := by
  have hprefix : (key ++ ['=']).isPrefixOf (key ++ '=' :: text) = true := by
    rw [List.isPrefixOf_iff_prefix]
    exact ⟨text, by simp⟩
  rw [Label.stripKey, if_pos hprefix, List.drop_append]
  simp

/-- The value of a key is what stands behind it. -/
theorem tagValue_keyed {l : Label} {key text : String} (hasKey : l.key = some key)
    (typed : l.stringValue = some (key ++ "=" ++ text)) : l.tagValue = some text := by
  have hstrip : Label.stripKey key.toList (key ++ "=" ++ text).toList = text.toList := by
    simpa using stripKey_append key.toList text.toList
  simp only [Label.tagValue, typed, hasKey]
  rw [hstrip, String.ofList_toList]

/-- The fields of a leaf that say where its tag is looked up and how. -/
theorem fields_toTree (c : Condition) :
    c.toTree.label.name = some c.entity.name
      ∧ c.toTree.label.entity = some (.known (.ofOrigin c.entity.origin))
      ∧ c.toTree.label.operator = some (.known (.of c.operator))
      ∧ c.toTree.label.key = c.entity.key := by
  obtain ⟨⟨name, key, origin⟩, op, v⟩ | ⟨⟨name, key, origin⟩, op⟩ := c
  · cases v <;> cases key <;> exact ⟨rfl, rfl, rfl, rfl⟩
  · exact ⟨rfl, rfl, rfl, rfl⟩

/-- A leaf joins nothing. -/
theorem Condition.connective_toTree (c : Condition) : c.toTree.label.connective = none := by
  obtain ⟨⟨name, key, origin⟩, op, v⟩ | ⟨⟨name, key, origin⟩, op⟩ := c
  · cases v <;> cases key <;> rfl
  · rfl

/-- A leaf has the value of its condition, and no second one. -/
theorem leafValue_toTree (c : Condition) :
    c.toTree.label.leafValue = c.value? ∧ c.toTree.label.typedValueCount ≤ 1 := by
  obtain ⟨⟨name, key, origin⟩, op, v⟩ | ⟨⟨name, key, origin⟩, op⟩ := c
  · cases v with
    | string text =>
      cases key with
      | none => exact ⟨rfl, Nat.le_refl _⟩
      | some key =>
        refine ⟨?_, Nat.le_refl _⟩
        rw [Label.leafValue, tagValue_keyed rfl rfl]
        rfl
    | number n => exact ⟨rfl, Nat.le_refl _⟩
    | boolean b => exact ⟨rfl, Nat.le_refl _⟩
  · exact ⟨rfl, Nat.zero_le 1⟩

/-- A leaf is read as its condition. -/
theorem condition_label {c : Condition} (h : isPlainName c.entity.name = true) :
    c.toTree.label.condition = .ok c.stored := by
  obtain ⟨hname, hentity, hoperator, hkey⟩ := fields_toTree c
  obtain ⟨hvalue, hcount⟩ := leafValue_toTree c
  rw [Label.condition_ok_iff]
  cases c with
  | compare e op v =>
    exact ⟨hname, h, ⟨_, hentity, by rw [Side.origin_ofOrigin]; rfl⟩, hkey, hoperator, hvalue, hcount⟩
  | test e op =>
    exact ⟨hname, h, ⟨_, hentity, by rw [Side.origin_ofOrigin]; rfl⟩, hkey, hoperator, hvalue, hcount⟩

/-! ## Chains that are put together -/

theorem Chain.toTrees_eq : ∀ c : Chain,
    c.toTrees = c.operands.flatMap fun o => o.toTree.merge .and
  | .single o => by simp [Chain.toTrees, Chain.operands]
  | .and o rest => by simp [Chain.toTrees, Chain.operands, rest.toTrees_eq]

theorem Filter.toTrees_eq : ∀ f : Filter, f.toTrees = f.chains.map Chain.toTree
  | .single c => by simp [Filter.toTrees, Filter.chains]
  | .or c rest => by simp [Filter.toTrees, Filter.chains, rest.toTrees_eq]

theorem Chain.depth_eq : ∀ c : Chain, c.depth = (c.operands.map Operand.depth).foldr max 0
  | .single o => by simp [Chain.depth, Chain.operands]
  | .and o rest => by simp [Chain.depth, Chain.operands, rest.depth_eq]

theorem Filter.depth_eq : ∀ f : Filter, f.depth = (f.chains.map Chain.depth).foldr max 0
  | .single c => by simp [Filter.depth, Filter.chains]
  | .or c rest => by simp [Filter.depth, Filter.chains, rest.depth_eq]

/-! ## Reading a canonical tree -/

/-- The part stands for the tree, and sends it again. -/
structure Stands (t : Tree) (p : Part) : Prop where
  toTree : p.toOperand.toTree = t
  depth : p.toOperand.depth = t.depth
  operands : t.label.isGroupOf .and = false → p.toOperands = [p.toOperand]
  noFilter : t.label.isGroupOf .or = false → ∀ f, p ≠ .filter f

section

variable {ts : List Tree} {ps : List Part}

theorem exists_stands (h : ∀ t ∈ ts, ∃ p, t.part = .ok p ∧ Stands t p) :
    ∃ ps, Tree.parts ts = ps.map .ok ∧ List.Forall₂ Stands ts ps := by
  induction ts with
  | nil => exact ⟨[], rfl, .nil⟩
  | cons t ts ih =>
    obtain ⟨p, hp, hstands⟩ := h t List.mem_cons_self
    obtain ⟨ps, hps, hall⟩ := ih fun u hu => h u (List.mem_cons_of_mem t hu)
    exact ⟨p :: ps, by simp [Tree.parts, hp, hps], .cons hstands hall⟩

theorem map_toTree (h : List.Forall₂ Stands ts ps) : ps.map (fun p => p.toOperand.toTree) = ts := by
  induction h with
  | nil => rfl
  | cons hp _ ih => rw [List.map_cons, hp.toTree, ih]

theorem map_depth (h : List.Forall₂ Stands ts ps) :
    ps.map (fun p => p.toOperand.depth) = ts.map Tree.depth := by
  induction h with
  | nil => rfl
  | cons hp _ ih => rw [List.map_cons, List.map_cons, hp.depth, ih]

theorem flatMap_toOperands (h : List.Forall₂ Stands ts ps)
    (apart : ∀ t ∈ ts, t.label.isGroupOf .and = false) :
    ps.flatMap Part.toOperands = ps.map Part.toOperand := by
  induction h with
  | nil => rfl
  | cons hp _ ih =>
    simp only [List.forall_mem_cons] at apart
    rw [List.flatMap_cons, List.map_cons, hp.operands apart.1, ih apart.2]
    rfl

/-- Trees that are no `AND` are not merged into one. -/
theorem flatMap_merge (apart : ∀ t ∈ ts, t.label.isGroupOf .and = false) :
    ts.flatMap (merge .and) = ts := by
  induction ts with
  | nil => rfl
  | cons t ts ih =>
    simp only [List.forall_mem_cons] at apart
    rw [List.flatMap_cons, merge_of_not apart.1, ih apart.2]
    rfl

end

theorem depth_of_elements_nil {t : Tree} (h : t.elements = []) : t.depth = 0 := by
  obtain ⟨l, elements⟩ := t
  obtain rfl : elements = [] := h
  rfl

theorem stands_leaf (c : Condition) : Stands c.toTree (.condition c.stored) where
  toTree := c.toTree_stored
  depth := (depth_of_elements_nil c.label_toTree.2).symm
  operands _ := rfl
  noFilter _ f := by simp

/-- Elements that are no `AND` make up a chain. -/
theorem stands_and {ts : List Tree} {ps : List Part} {o : Operand} {os : List Operand}
    (many : 2 ≤ ts.length) (apart : ∀ t ∈ ts, t.label.isGroupOf .and = false)
    (h : List.Forall₂ Stands ts ps) (operands : ps.map Part.toOperand = o :: os) :
    Stands (group (.known .and) ts) (.chain (.ofOperands o os)) where
  toTree := by
    have htrees : (Chain.ofOperands o os).toTrees = ts := by
      calc (Chain.ofOperands o os).toTrees
          = (ps.map Part.toOperand).flatMap fun o => o.toTree.merge .and := by
            rw [Chain.toTrees_eq, Chain.operands_ofOperands, operands]
        _ = (ps.map fun p => p.toOperand.toTree).flatMap (merge .and) := by
            rw [List.flatMap_map, List.flatMap_map]
        _ = ts := by rw [map_toTree h, flatMap_merge apart]
    have hmore : os ≠ [] := by
      have hlength := congrArg List.length operands
      rw [List.length_map, ← h.length_eq, List.length_cons] at hlength
      exact List.ne_nil_of_length_pos (by omega)
    obtain ⟨p, os, rfl⟩ := List.exists_cons_of_ne_nil hmore
    show group (.known .and) (Chain.ofOperands o (p :: os)).toTrees = _
    rw [htrees]
  depth := by
    show (Chain.ofOperands o os).depth + 1 = _
    rw [Chain.depth_eq, Chain.operands_ofOperands, ← operands, List.map_map]
    have hmap := map_depth h
    rw [group, depth_of_ne_nil (List.ne_nil_of_length_pos (by omega)), depthAll_eq, ← hmap]
    rfl
  operands hand := by simp [isGroupOf_group] at hand
  noFilter _ f := by simp

/-- Elements of which the first is no `OR` make up a filter. -/
theorem stands_or {ts : List Tree} {p q : Part} {ps : List Part} (many : 2 ≤ ts.length)
    (first : ∀ t ∈ ts.head?, t.label.isGroupOf .or = false)
    (h : List.Forall₂ Stands ts (p :: q :: ps)) :
    Stands (group (.known .or) ts)
      (.filter (.ofChains p.toChain ((q :: ps).map Part.toChain))) where
  toTree := by
    cases h with
    | @cons t _ ts _ hp hps =>
      have hfirst : p.toOperand.toTree.merge .or = [t] := by
        rw [hp.toTree, merge_of_not (first t rfl)]
      have hrest : (Filter.ofChains q.toChain (ps.map Part.toChain)).toTrees = ts := by
        rw [Filter.toTrees_eq, Filter.chains_ofChains, ← List.map_cons, List.map_map]
        exact map_toTree hps
      show group (.known .or) (p.toOperand.toTree.merge .or
        ++ (Filter.ofChains q.toChain (ps.map Part.toChain)).toTrees) = _
      rw [hfirst, hrest]
      rfl
  depth := by
    show (Filter.ofChains _ _).depth + 1 = _
    rw [Filter.depth_eq, Filter.chains_ofChains, ← List.map_cons, List.map_map]
    have hmap := map_depth h
    rw [group, depth_of_ne_nil (List.ne_nil_of_length_pos (by omega)), depthAll_eq, ← hmap]
    rfl
  operands _ := rfl
  noFilter hor := by simp [isGroupOf_group] at hor

theorem part_leaf {t : Tree} {c : Condition} (kind : t.label.isTagFilter = true)
    (condition : t.label.condition = .ok c) : t.part = .ok (.condition c) := by
  obtain ⟨l, elements⟩ := t
  rw [Tree.part, part_ok_iff]
  exact .leaf kind condition

theorem mem_leavesAll {ts : List Tree} {t : Tree} {l : Label} (ht : t ∈ ts) (hl : l ∈ t.leaves) :
    l ∈ leavesAll ts := by
  induction ts with
  | nil => simp at ht
  | cons u ts ih =>
    rcases List.mem_cons.1 ht with rfl | ht
    · exact List.mem_append_left _ hl
    · exact List.mem_append_right _ (ih ht)

/-- A canonical tree with plain names stands for a part. -/
theorem part_canonical {t : Tree} (h : Canonical t)
    (names : ∀ l ∈ t.leaves, l.name.any isPlainName = true) :
    ∃ p, t.part = .ok p ∧ Stands t p := by
  induction h with
  | leaf c =>
    have hplain : isPlainName c.entity.name = true := by
      simpa [c.leaves_toTree, (fields_toTree c).1] using names
    exact ⟨.condition c.stored, part_leaf c.label_toTree.1 (condition_label hplain), stands_leaf c⟩
  | @and ts many elements apart ih =>
    rw [leaves_group] at names
    obtain ⟨ps, hparts, hall⟩ := exists_stands fun t ht => ih t ht fun l hl => names l (mem_leavesAll ht hl)
    have hlength := hall.length_eq
    obtain ⟨o, os, hoperands⟩ := List.exists_cons_of_ne_nil
      (show ps.map Part.toOperand ≠ [] from
        List.ne_nil_of_length_pos (by rw [List.length_map]; omega))
    refine ⟨.chain (.ofOperands o os), ?_, stands_and many apart hall hoperands⟩
    rw [group, Tree.part, hparts, part_ok_iff]
    refine .chain rfl (by omega) ?_
    rw [flatMap_toOperands hall apart, hoperands]
  | @or ts many elements first ih =>
    rw [leaves_group] at names
    obtain ⟨ps, hparts, hall⟩ := exists_stands fun t ht => ih t ht fun l hl => names l (mem_leavesAll ht hl)
    have hlength := hall.length_eq
    rcases ps with _ | ⟨p, _ | ⟨q, ps⟩⟩
    · simp only [List.length_nil] at hlength
      omega
    · simp only [List.length_singleton] at hlength
      omega
    · refine ⟨.filter (.ofChains p.toChain ((q :: ps).map Part.toChain)), ?_,
        stands_or many first hall⟩
      rw [group, Tree.part, hparts, part_ok_iff]
      refine .filter rfl ?_
      cases hall with
      | cons hp _ => exact hp.noFilter (first _ rfl)

/-! ## Size -/

theorem nodeCount_of_elements_nil {t : Tree} (h : t.elements = []) : t.nodeCount = 1 := by
  obtain ⟨l, elements⟩ := t
  obtain rfl : elements = [] := h
  rfl

/-- Groups have two elements at least, so that a tree has fewer groups than leaves. -/
theorem nodeCount_le {t : Tree} (h : Canonical t) : t.nodeCount + 1 ≤ 2 * t.leaves.length := by
  have all : ∀ ts : List Tree, (∀ t ∈ ts, t.nodeCount + 1 ≤ 2 * t.leaves.length) →
      nodeCountAll ts + ts.length ≤ 2 * (leavesAll ts).length := by
    intro ts
    induction ts with
    | nil => simp [nodeCountAll]
    | cons t ts ih =>
      intro hts
      have ht := hts t List.mem_cons_self
      have hrest := ih fun u hu => hts u (List.mem_cons_of_mem t hu)
      simp only [nodeCountAll, List.length_cons, leavesAll, List.length_append]
      omega
  induction h with
  | leaf c =>
    have hnodes := nodeCount_of_elements_nil c.label_toTree.2
    have hleaves : c.toTree.leaves.length = 1 := by rw [c.leaves_toTree, List.length_singleton]
    omega
  | and many elements apart ih =>
    have hall := all _ ih
    rw [leaves_group, group, nodeCount]
    omega
  | or many elements first ih =>
    have hall := all _ ih
    rw [leaves_group, group, nodeCount]
    omega

/-! ## The filter of a canonical tree -/

theorem toFilter_canonical {t : Tree} (h : Canonical t)
    (names : ∀ l ∈ t.leaves, l.name.any isPlainName = true) (small : t.nodeCount ≤ maxNodes) :
    ∃ g, t.toFilter = .ok g ∧ g.toTree = t ∧ g.depth = t.depth := by
  obtain ⟨p, hpart, hstands⟩ := part_canonical h names
  exact ⟨.ofOperand p.toOperand, toFilter_ok_iff.2 ⟨small, p, hpart, rfl⟩, hstands.toTree,
    hstands.depth⟩

/-- A filter with plain names that is not too long has a canonical form, which is sent as the same
tree. -/
theorem Filter.canonical_ok {f : Filter}
    (names : ∀ c ∈ f.conditions, isPlainName c.entity.name = true)
    (count : f.conditions.length ≤ maxConditions) :
    ∃ g, f.toTree.toFilter = .ok g ∧ g.toTree = f.toTree ∧ g.depth = f.toTree.depth := by
  apply toFilter_canonical f.canonical_toTree
  · intro l hl
    rw [f.leaves_toTree] at hl
    obtain ⟨c, hc, rfl⟩ := List.mem_map.1 hl
    simpa [(fields_toTree c).1] using names c hc
  · have hnodes := nodeCount_le f.canonical_toTree
    rw [f.leaves_toTree, List.length_map] at hnodes
    unfold maxNodes
    omega

end TagQuery
