import TagQuery.Proofs.Filter.RoundTrip
import TagQuery.Proofs.Tree.Canonical

/-!
# Trees whose filters read back

A tree is read as a filter with plain names and one condition for each leaf.  The reader of trees counts
nodes and does not look at brackets, so that the filter's text may be more than the parser takes:

    t.toFilter = .ok f → (Filter.parse f.text = .ok f ↔
      f.depth ≤ maxDepth ∧ t.leaves.length ≤ maxConditions)                 (parse_toFilter_iff)
-/

namespace TagQuery

/-- A leaf that is read has a plain name. -/
theorem plain_of_condition {l : Label} {c : Condition} (h : l.condition = .ok c) :
    isPlainName c.entity.name = true :=
  (Label.condition_ok_iff.1 h).plain

namespace Tree

variable {t : Tree} {f : Filter}

/-- The conditions of the filter are those of the leaves, from left to right. -/
theorem conditions_toFilter (h : t.toFilter = .ok f) :
    f.conditions.map .ok = t.leaves.map Label.condition := by
  obtain ⟨-, p, hpart, rfl⟩ := toFilter_ok_iff.1 h
  exact conditions_part hpart

theorem length_toFilter (h : t.toFilter = .ok f) : f.conditions.length = t.leaves.length := by
  simpa using congrArg List.length (conditions_toFilter h)

theorem isPlain_toFilter (h : t.toFilter = .ok f) :
    ∀ c ∈ f.conditions, isPlainName c.entity.name = true := by
  intro c hc
  have hmem : .ok c ∈ t.leaves.map Label.condition := by
    rw [← conditions_toFilter h]
    exact List.mem_map_of_mem hc
  obtain ⟨l, -, hl⟩ := List.mem_map.1 hmem
  exact plain_of_condition hl

/-- **What a tree is read as can be typed back in** if and only if its brackets are not nested too deep and
the tree has no more leaves than a filter may have conditions. -/
theorem parse_toFilter_iff (h : t.toFilter = .ok f) :
    Filter.parse f.text = .ok f ↔ f.depth ≤ maxDepth ∧ t.leaves.length ≤ maxConditions := by
  rw [Filter.parse_text_iff, length_toFilter h]
  exact and_iff_right (isPlain_toFilter h)

/-- An `OR` of `n` equal leaves. -/
def alternatives (n : Nat) : Tree :=
  group (.known .or) (List.replicate n (leaf (.known .destination) "a" (.known .isEmpty)))

/-- The filter of such a tree with two leaves. -/
def twoAlternatives : Filter :=
  let c : Condition := .test ⟨"a", none, some .destination⟩ .isEmpty
  .ofOperand (.group (.or (.single (.condition c)) (.single (.single (.condition c)))))

/-- Two leaves are few enough. -/
theorem parse_toFilter_iff_two :
    (alternatives 2).toFilter = .ok twoAlternatives
      ∧ Filter.parse twoAlternatives.text = .ok twoAlternatives := by
  have h : (alternatives 2).toFilter = .ok twoAlternatives := by decide +kernel
  exact ⟨h, (parse_toFilter_iff h).2 ⟨by decide, by decide⟩⟩

theorem canonical_alternatives {n : Nat} (h : 2 ≤ n) : Canonical (alternatives n) := by
  have hleaf : leaf (.known .destination) "a" (.known .isEmpty)
      = Condition.toTree (.test ⟨"a", none, some .destination⟩ .isEmpty) := rfl
  refine .or (by simpa using h) ?_ ?_
  · intro t ht
    rw [List.eq_of_mem_replicate ht, hleaf]
    exact .leaf _
  · intro t ht
    rw [List.eq_of_mem_replicate (List.mem_of_mem_head? ht)]
    rfl

/-- One leaf more than a filter may have conditions: the tree is read, but its filter is not. -/
theorem toFilter_not_read_back :
    ∃ f, (alternatives 1025).toFilter = .ok f ∧ Filter.parse f.text ≠ .ok f := by
  have hleaves : (alternatives 1025).leaves.length = 1025 := by decide +kernel
  obtain ⟨f, hf, -, -⟩ := toFilter_canonical (canonical_alternatives (n := 1025) (by omega))
    (by decide +kernel) (by decide +kernel)
  refine ⟨f, hf, fun h => ?_⟩
  have hcount := (Filter.parse_text_iff.1 h).2.2
  rw [length_toFilter hf, hleaves] at hcount
  exact absurd hcount (by decide)

end Tree

end TagQuery
