import TagQuery.Canonical
import TagQuery.Proofs.Tree.ReadBack

/-!
# Canonical texts that are read again

Every filter that can be read has a canonical form.  The canonical text is longer than what was read, and
its brackets are those of the tree's groups, so that it is read again, and is its own canonical text, if and
only if the tree is not too deep:

    Filter.parse text = .ok f → ∃ c, normalize text = .ok c
      ∧ (normalize c = .ok c ↔ f.toTree.depth ≤ maxDepth) ∧ …                 (normalize_normalize_iff)

`stairs n` goes up two groups with each of its `n` brackets, so that half the brackets that may be
nested are enough for a canonical text that is not read again (`normalize_not_idempotent`).

Reading is all that can fail: the tree of what has been read is never refused (`normalize_error_iff`).
-/

namespace TagQuery

variable {text : String} {f g : Filter}

/-- The canonical form of what has been read. -/
theorem exists_canonical (h : Filter.parse text = .ok f) :
    ∃ g, f.toTree.toFilter = .ok g ∧ g.toTree = f.toTree ∧ g.depth = f.toTree.depth :=
  Filter.canonical_ok (Filter.isPlain_of_parse h) (Filter.count_of_parse h)

theorem normalize_eq (hread : Filter.parse text = .ok f) (hcanonical : f.toTree.toFilter = .ok g) :
    normalize text = .ok g.text := by
  unfold normalize Filter.read
  rw [hread]
  show ((f.toTree.toFilter.mapError .shape : Except FilterError Filter) >>= fun g => pure g.text) = _
  rw [hcanonical]
  rfl

/-- What normalization gives has been read first. -/
theorem parse_of_normalize {canonical : String} (h : normalize text = .ok canonical) :
    ∃ f, Filter.parse text = .ok f := by
  obtain ⟨f, hread, -⟩ := Except.bind_ok_iff.1 h
  exact ⟨f, Except.mapError_ok_iff.1 hread⟩

/-- The canonical form has as many conditions as the filter. -/
theorem count_canonical (hcanonical : f.toTree.toFilter = .ok g) :
    g.conditions.length = f.conditions.length := by
  rw [Tree.length_toFilter hcanonical, f.leaves_toTree, List.length_map]

/-- The canonical text is read as the canonical form or not at all. -/
theorem parse_canonical_iff (hread : Filter.parse text = .ok f)
    (hcanonical : f.toTree.toFilter = .ok g) (hdepth : g.depth = f.toTree.depth) :
    Filter.parse g.text = .ok g ↔ f.toTree.depth ≤ maxDepth := by
  have hcount := count_canonical hcanonical
  rw [Filter.parse_text_iff, hdepth, hcount]
  exact ⟨fun h => h.2.1,
    fun h => ⟨Tree.isPlain_toFilter hcanonical, h, Filter.count_of_parse hread⟩⟩

/-- **When normalization is idempotent.**  What has been read has a canonical text, and that is its own
canonical text, and is read at all, if and only if the tree of the filter is not too deep. -/
theorem normalize_normalize_iff (hread : Filter.parse text = .ok f) :
    ∃ c, normalize text = .ok c
      ∧ (normalize c = .ok c ↔ f.toTree.depth ≤ maxDepth)
      ∧ ((∃ g, Filter.parse c = .ok g) ↔ f.toTree.depth ≤ maxDepth) := by
  obtain ⟨g, hcanonical, htree, hdepth⟩ := exists_canonical hread
  have hparse := parse_canonical_iff hread hcanonical hdepth
  have hagain : (∃ h, Filter.parse g.text = .ok h) ↔ f.toTree.depth ≤ maxDepth := by
    constructor
    · rintro ⟨h, hg⟩
      obtain rfl := Filter.eq_of_parse_text (Tree.isPlain_toFilter hcanonical) hg
      exact hparse.1 hg
    · intro h
      exact ⟨g, hparse.2 h⟩
  refine ⟨g.text, normalize_eq hread hcanonical, ?_, hagain⟩
  constructor
  · intro h
    exact hagain.1 (parse_of_normalize h)
  · intro h
    exact normalize_eq (hparse.2 h) (htree ▸ hcanonical)

/-! ## Stairs -/

/-- A condition without a value. -/
def stair : Condition := .test ⟨"a", none, none⟩ .isEmpty

/-- An alternative whose second one is a chain that ends with the next bracket, `n` times. -/
def stairs : Nat → Filter
  | 0 => .or (.single (.condition stair)) (.single (.and (.condition stair) (.single (.condition stair))))
  | n + 1 =>
    .or (.single (.condition stair)) (.single (.and (.condition stair) (.single (.group (stairs n)))))

theorem conditions_stairs (n : Nat) : (stairs n).conditions = List.replicate (2 * n + 3) stair := by
  induction n with
  | zero => rfl
  | succ n ih =>
    simp only [stairs, Filter.conditions, Chain.conditions, Operand.conditions, ih]
    rfl

theorem depth_stairs (n : Nat) : (stairs n).depth = n := by
  induction n with
  | zero => rfl
  | succ n ih => simp [stairs, Filter.depth, Chain.depth, Operand.depth, ih]

theorem toTree_stairs (n : Nat) :
    (stairs (n + 1)).toTree = .group (.known .or)
      [stair.toTree, .group (.known .and) [stair.toTree, (stairs n).toTree]] := by
  cases n <;> rfl

/-- Each bracket of the stairs stands for two groups of their tree. -/
theorem depth_toTree_stairs (n : Nat) : (stairs n).toTree.depth = 2 * n + 2 := by
  induction n with
  | zero => rfl
  | succ n ih =>
    have hleaf : stair.toTree.depth = 0 := rfl
    simp only [toTree_stairs, Tree.group, Tree.depth, Tree.depthAll, hleaf, ih]
    omega

/-- Stairs are read as what they are, up to the limit of the parser. -/
theorem parse_stairs {n : Nat} (h : n ≤ maxDepth) : Filter.parse (stairs n).text = .ok (stairs n) := by
  rw [Filter.parse_text_iff, depth_stairs, conditions_stairs]
  refine ⟨?_, h, ?_⟩
  · intro c hc
    rw [List.eq_of_mem_replicate hc]
    decide +kernel
  · rw [List.length_replicate]
    unfold maxDepth at h
    unfold maxConditions
    omega

/-- Thirty-one brackets are just few enough. -/
theorem normalize_normalize_iff_stairs :
    Filter.parse (stairs 31).text = .ok (stairs 31)
      ∧ ∃ c, normalize (stairs 31).text = .ok c ∧ normalize c = .ok c := by
  have hread := parse_stairs (n := 31) (by decide)
  obtain ⟨c, hc, hagain, -⟩ := normalize_normalize_iff hread
  refine ⟨hread, c, hc, hagain.2 ?_⟩
  rw [depth_toTree_stairs]
  decide

/-- Thirty-two brackets make a canonical text that is not read again. -/
theorem normalize_not_idempotent :
    ∃ c, normalize (stairs 32).text = .ok c ∧ normalize c ≠ .ok c := by
  have hread := parse_stairs (n := 32) (by decide)
  obtain ⟨g, hcanonical, -, hdepth⟩ := exists_canonical hread
  refine ⟨g.text, normalize_eq hread hcanonical, fun h => ?_⟩
  obtain ⟨k, hk⟩ := parse_of_normalize h
  obtain rfl := Filter.eq_of_parse_text (Tree.isPlain_toFilter hcanonical) hk
  have hle := (parse_canonical_iff hread hcanonical hdepth).1 hk
  rw [depth_toTree_stairs] at hle
  exact absurd hle (by decide)

/-! ## Errors -/

/-- What cannot be read has no canonical text either, for the same reason. -/
theorem normalize_error {e : ReadError} (h : Filter.parse text = .error e) :
    normalize text = .error (.read e) := by
  unfold normalize Filter.read
  rw [h]
  rfl

/-- **Only reading can fail.**  A text has no canonical text if and only if it cannot be read, for the same
reason, and the tree of a filter that has been read is never refused. -/
theorem normalize_error_iff :
    (∀ (text : String) (e : FilterError),
        normalize text = .error e ↔ ∃ r, Filter.parse text = .error r ∧ e = .read r)
      ∧ ∀ (text : String) (f : Filter), Filter.parse text = .ok f → ∃ g, f.toTree.toFilter = .ok g := by
  constructor
  · intro text e
    cases hread : Filter.parse text with
    | error r =>
      rw [normalize_error hread]
      constructor
      · intro h
        exact ⟨r, rfl, (Except.error.inj h).symm⟩
      · rintro ⟨r, hr, rfl⟩
        rw [Except.error.inj hr]
    | ok f =>
      obtain ⟨g, hcanonical, -⟩ := exists_canonical hread
      rw [normalize_eq hread hcanonical]
      constructor
      · exact nofun
      · rintro ⟨r, hr, -⟩
        exact nomatch hr
  · intro text f hread
    obtain ⟨g, hcanonical, -⟩ := exists_canonical hread
    exact ⟨g, hcanonical⟩

/-- As many brackets as may be nested make a tree twice as deep, which is read all the same. -/
theorem normalize_error_iff_stairs :
    Filter.parse (stairs maxDepth).text = .ok (stairs maxDepth)
      ∧ ∃ g, (stairs maxDepth).toTree.toFilter = .ok g := by
  have hread := parse_stairs (n := maxDepth) le_rfl
  exact ⟨hread, normalize_error_iff.2 _ _ hread⟩

end TagQuery
