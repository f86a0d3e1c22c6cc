import TagQuery.Proofs.Command.Results
import TagQuery.Proofs.Normalize
import TagQuery.Proofs.Tree.Wire

/-!
# Filters that are stored and fetched again

A filter is stored as the JSON text of its tree, and fetched from there in canonical form.  Each group takes
two of the arrays and objects that a reader may enter, and each leaf one, so that what is fetched is the
canonical text of what was stored if and only if the tree is not too deep for the reader, if its numbers are
read back:

    Readable levels f.toTree ↔ 2 * f.toTree.depth + 1 ≤ levels                       (readable_toTree_iff)
    Filter.parse text = .ok f → f.toTree.toJson.NumbersReadBack → ∃ c, normalize text = .ok c ∧ …
      ∧ ((Task.ofCommand o' (.ofTree none)).Prints (w.withInput (Report.tree o compact f.toTree))
        (.ok (Report.filterOfTree o' c)) ↔ 2 * f.toTree.depth + 1 ≤ maxNesting)      (fetched_stored_iff)
-/

namespace TagQuery

/-! ## How deep a tree may be -/

namespace Tree

theorem depthAll_le {ts : List Tree} {n : Nat} (h : ∀ t ∈ ts, t.depth ≤ n) : depthAll ts ≤ n := by
  induction ts with
  | nil => exact Nat.zero_le n
  | cons t ts ih =>
    obtain ⟨hhead, htail⟩ := List.forall_mem_cons.1 h
    exact Nat.max_le.2 ⟨hhead, ih htail⟩

theorem depth_le_depthAll {ts : List Tree} {t : Tree} (h : t ∈ ts) : t.depth ≤ depthAll ts := by
  induction ts with
  | nil => simp at h
  | cons u ts ih =>
    rcases List.mem_cons.1 h with rfl | h
    · exact Nat.le_max_left _ _
    · exact Nat.le_trans (ih h) (Nat.le_max_right _ _)

/-- Each group takes two arrays and objects, its own and that of its elements. -/
theorem depth_of_readable {levels : Nat} {t : Tree} (h : Readable levels t) :
    2 * t.depth + 1 ≤ levels := by
  induction h with
  | @node levels label elements own room inside ih =>
    cases elements with
    | nil => exact Nat.le_add_left 1 levels
    | cons u us =>
      have hroom : 0 < levels := room (List.cons_ne_nil u us)
      have hbound : ∀ t ∈ u :: us, t.depth ≤ (levels - 2) / 2 := by
        intro t ht
        have := ih t ht
        omega
      have hu := ih u List.mem_cons_self
      have hall := depthAll_le hbound
      rw [depth_of_ne_nil (List.cons_ne_nil u us)]
      omega

end Tree

/-- The value of a leaf is no array and no object, and it is not `null`. -/
theorem Condition.value_toTree (c : Condition) :
    ∀ v ∈ c.toTree.label.value, v ≠ .null ∧ ∃ s : Json.Scalar, v = s.toJson := by
  obtain ⟨⟨name, key, origin⟩, op, v⟩ | ⟨⟨name, key, origin⟩, op⟩ := c
  · cases v with
    | string text =>
      cases key <;> exact fun v hv => Option.some.inj hv ▸ ⟨nofun, .string text, rfl⟩
    | number n => exact fun v hv => Option.some.inj hv ▸ ⟨nofun, .number n, rfl⟩
    | boolean b => exact fun v hv => Option.some.inj hv ▸ ⟨nofun, .boolean b, rfl⟩
  · exact nofun

/-- The label of a leaf can be read. -/
theorem Condition.readable_label (c : Condition) (levels : Nat) :
    c.toTree.label.Readable levels := by
  obtain ⟨-, hentity, hoperator, -⟩ := fields_toTree c
  have hkind : c.toTree.label.kind = some (.known .tagFilter) := by
    simpa [Label.isTagFilter] using c.label_toTree.1
  constructor
  · constructor
    · intro w hw
      obtain rfl := Option.some.inj (hkind ▸ hw)
      exact Open.regular_known _
    · intro w hw
      simp [c.connective_toTree] at hw
    · intro w hw
      obtain rfl := Option.some.inj (hentity ▸ hw)
      exact Open.regular_known _
    · intro w hw
      obtain rfl := Option.some.inj (hoperator ▸ hw)
      exact Open.regular_known _
  · intro v hv
    obtain ⟨hnull, s, rfl⟩ := c.value_toTree v hv
    exact ⟨hnull, .scalar s⟩

namespace Tree

theorem readable_label_group (c : Connective) (ts : List Tree) (levels : Nat) :
    (group (.known c) ts).label.Readable levels := by
  constructor
  · constructor
    · intro w hw
      obtain rfl := Option.some.inj hw
      exact Open.regular_known _
    · intro w hw
      obtain rfl := Option.some.inj hw
      exact Open.regular_known _
    · exact nofun
    · exact nofun
  · exact nofun

/-- A group that is not too deep can be read if its elements can. -/
theorem readable_group {c : Connective} {ts : List Tree} {levels : Nat} (some : ts ≠ [])
    (hdepth : 2 * (group (.known c) ts).depth + 1 ≤ levels)
    (inside : ∀ t ∈ ts, ∀ levels, 2 * t.depth + 1 ≤ levels → Readable levels t) :
    Readable levels (group (.known c) ts) := by
  have hgroup : (group (.known c) ts).depth = depthAll ts + 1 := depth_of_ne_nil some
  obtain ⟨levels, rfl⟩ : ∃ n, levels = n + 1 := Nat.exists_eq_succ_of_ne_zero (by omega)
  refine .node (readable_label_group c ts levels) (fun _ => by omega) fun t ht => ?_
  apply inside t ht
  have := depth_le_depthAll ht
  omega

/-- Canonical trees can be read that are not too deep. -/
theorem readable_canonical {t : Tree} (h : Canonical t) :
    ∀ levels, 2 * t.depth + 1 ≤ levels → Readable levels t := by
  induction h with
  | leaf c =>
    intro levels hdepth
    obtain ⟨levels, rfl⟩ : ∃ n, levels = n + 1 := Nat.exists_eq_succ_of_ne_zero (by omega)
    have helements := c.label_toTree.2
    have hlabel := c.readable_label levels
    revert helements hlabel
    cases c.toTree with
    | mk label elements =>
      rintro rfl hlabel
      exact .node hlabel (by simp) (by simp)
  | and many elements apart ih =>
    intro levels hdepth
    exact readable_group (by rintro rfl; simp at many) hdepth ih
  | or many elements first ih =>
    intro levels hdepth
    exact readable_group (by rintro rfl; simp at many) hdepth ih

end Tree

/-- The tree of a filter can be read if and only if it is not too deep. -/
theorem Filter.readable_toTree_iff {f : Filter} {levels : Nat} :
    Tree.Readable levels f.toTree ↔ 2 * f.toTree.depth + 1 ≤ levels :=
  ⟨Tree.depth_of_readable, Tree.readable_canonical f.canonical_toTree levels⟩

/-! ## Stored and fetched -/

/-- The text of a filter's tree is read as that tree or not at all, the latter if it is too deep. -/
theorem Filter.ofText_toTree_iff {f : Filter} (back : f.toTree.toJson.NumbersReadBack)
    {layout : Json.Layout} {sp : List Char} (hsp : Json.Spaces sp) :
    (∃ t, Tree.ofText (f.toTree.text layout ++ String.ofList sp) = .ok t)
      ↔ 2 * f.toTree.depth + 1 ≤ Json.maxNesting := by
  have hreadable : Tree.Readable (2 * f.toTree.depth + 1) f.toTree :=
    Filter.readable_toTree_iff.2 (Nat.le_refl _)
  constructor
  · rintro ⟨t, ht⟩
    obtain rfl := Tree.eq_of_ofText_text hreadable back layout hsp ht
    exact Filter.readable_toTree_iff.1 (Tree.readable_of_ofText ht)
  · intro h
    exact ⟨f.toTree, Tree.ofText_text (Filter.readable_toTree_iff.2 h) back layout hsp⟩

variable {text : String} {f g : Filter}

theorem fetched_eq {stored : String} (hdecode : Tree.ofText stored = .ok f.toTree)
    (hcanonical : f.toTree.toFilter = .ok g) : fetched stored = .ok g.text := by
  unfold fetched
  rw [hdecode]
  show (f.toTree.toFilter.mapError FilterError.shape).mapError Failure.filter >>= (fun g => pure g.text) = _
  rw [hcanonical]
  rfl

/-- What is printed of a filter's tree is fetched as the canonical text, or it is no text of a tree. -/
theorem fetched_tree (o : Manner) (compact : Bool) (back : f.toTree.toJson.NumbersReadBack)
    (hcanonical : f.toTree.toFilter = .ok g) :
    (2 * f.toTree.depth + 1 ≤ Json.maxNesting ∧ fetched (Report.tree o compact f.toTree) = .ok g.text)
      ∨ (¬2 * f.toTree.depth + 1 ≤ Json.maxNesting
        ∧ ∃ e, fetched (Report.tree o compact f.toTree) = .error (.decode e)) := by
  have hline : Json.Spaces ['\n'] := by simp [Json.Spaces, Json.Cursor.isSpace]
  by_cases hdepth : 2 * f.toTree.depth + 1 ≤ Json.maxNesting
  · have hreadable := Filter.readable_toTree_iff.2 hdepth
    exact .inl ⟨hdepth, fetched_eq (Tree.ofText_text hreadable back _ hline) hcanonical⟩
  · refine .inr ⟨hdepth, ?_⟩
    cases hdecode : Tree.ofText (Report.tree o compact f.toTree) with
    | ok t => exact absurd ((Filter.ofText_toTree_iff back hline).1 ⟨t, hdecode⟩) hdepth
    | error e =>
      refine ⟨e, ?_⟩
      unfold fetched
      rw [hdecode]
      rfl

theorem ne_dash_of_parse (h : Filter.parse text = .ok f) : text ≠ "-" := by
  rintro rfl
  have hdash : (Filter.parse "-").toOption = none := by decide +kernel
  rw [h] at hdash
  cases hdash

/-- A stored filter is fetched in canonical form if its tree is not too deep; else its text does not
decode. -/
theorem prints_ofTree_tree (o o' : Manner) (compact : Bool) (w : Machine)
    (back : f.toTree.toJson.NumbersReadBack) (hcanonical : f.toTree.toFilter = .ok g) :
    ((Task.ofCommand o' (.ofTree none)).Prints (w.withInput (Report.tree o compact f.toTree))
        (.ok (Report.filterOfTree o' g.text)) ↔ 2 * f.toTree.depth + 1 ≤ Json.maxNesting)
      ∧ ((∃ e, (Task.ofCommand o' (.ofTree none)).Prints (w.withInput (Report.tree o compact f.toTree))
        (.error (.decode e))) ↔ ¬2 * f.toTree.depth + 1 ≤ Json.maxNesting) := by
  have hprints := @Task.prints_ofTree w o' (Report.tree o compact f.toTree)
  rcases fetched_tree o compact back hcanonical with ⟨hdepth, hfetched⟩ | ⟨hdepth, e, hfetched⟩
  · rw [hfetched] at hprints
    refine ⟨iff_of_true hprints hdepth, iff_of_false ?_ (not_not_intro hdepth)⟩
    rintro ⟨e, he⟩
    cases he.unique hprints
  · rw [hfetched] at hprints
    refine ⟨iff_of_false ?_ hdepth, iff_of_true ⟨e, hprints⟩ hdepth⟩
    intro h
    cases h.unique hprints

/-- **What is fetched of a stored filter.**  The tree of a filter that has been read, if its numbers are
read back, is read back from its text in any layout if and only if the tree is not too deep, and else
nothing is.  What is printed of it is fetched as the canonical text under the same condition, and does
not decode without it. -/
theorem fetched_stored_iff (hread : Filter.parse text = .ok f) (back : f.toTree.toJson.NumbersReadBack) :
    ∃ c, normalize text = .ok c
      ∧ (∀ layout, Tree.ofText (f.toTree.text layout) = .ok f.toTree
          ↔ 2 * f.toTree.depth + 1 ≤ Json.maxNesting)
      ∧ (∀ layout, (∃ t, Tree.ofText (f.toTree.text layout) = .ok t)
          ↔ 2 * f.toTree.depth + 1 ≤ Json.maxNesting)
      ∧ ∀ (o o' : Manner) (compact : Bool) (w : Machine),
        (Task.ofCommand o (.normalize (some text))).Prints w (.ok (Report.filter o text c))
          ∧ (o.json = false → Report.filter o text c = Report.filterOfTree o c)
          ∧ (Task.ofCommand o (.toTree (some text) compact)).Prints w (.ok (Report.tree o compact f.toTree))
          ∧ ((Task.ofCommand o' (.ofTree none)).Prints (w.withInput (Report.tree o compact f.toTree))
            (.ok (Report.filterOfTree o' c)) ↔ 2 * f.toTree.depth + 1 ≤ Json.maxNesting)
          ∧ ((∃ e, (Task.ofCommand o' (.ofTree none)).Prints (w.withInput (Report.tree o compact f.toTree))
            (.error (.decode e))) ↔ ¬2 * f.toTree.depth + 1 ≤ Json.maxNesting) := by
  obtain ⟨g, hcanonical, -, -⟩ := exists_canonical hread
  have hnormalize := normalize_eq hread hcanonical
  have hdash := ne_dash_of_parse hread
  refine ⟨g.text, hnormalize, ?_, ?_, ?_⟩
  · intro layout
    rw [Tree.ofText_text_iff back, Filter.readable_toTree_iff]
  · intro layout
    have hnone := @Filter.ofText_toTree_iff f back layout [] Json.spaces_nil
    simpa using hnone
  · intro o o' compact w
    have hfilter := @Task.prints_normalize w text o hdash
    have htree := @Task.prints_toTree w text o compact hdash
    rw [hnormalize] at hfilter
    rw [Filter.read, hread] at htree
    refine ⟨hfilter, ?_, htree, prints_ofTree_tree o o' compact w back hcanonical⟩
    intro hplain
    simp [Report.filter, Report.filterOfTree, hplain]

/-- Thirty brackets are just few enough. -/
theorem fetched_stored_iff_stairs :
    Filter.parse (stairs 30).text = .ok (stairs 30) ∧ (stairs 30).toTree.toJson.NumbersReadBack
      ∧ ∃ c, normalize (stairs 30).text = .ok c
        ∧ Tree.ofText ((stairs 30).toTree.text .compact) = .ok (stairs 30).toTree
        ∧ ∀ (o : Manner) (w : Machine), (Task.ofCommand o (.ofTree none)).Prints
          (w.withInput (Report.tree o false (stairs 30).toTree)) (.ok (Report.filterOfTree o c)) := by
  have hread := parse_stairs (n := 30) (by decide)
  have hback : (stairs 30).toTree.toJson.NumbersReadBack := by decide +kernel
  obtain ⟨c, hc, hdecode, -, hcommands⟩ := fetched_stored_iff hread hback
  have hdepth : 2 * (stairs 30).toTree.depth + 1 ≤ Json.maxNesting := by
    rw [depth_toTree_stairs]
    decide
  refine ⟨hread, hback, c, hc, (hdecode .compact).2 hdepth, fun o w => ?_⟩
  obtain ⟨-, -, -, hfetched, -⟩ := hcommands o o false w
  exact hfetched.2 hdepth

/-- Thirty-one brackets make a tree whose text is not read back. -/
theorem stored_not_fetched :
    Filter.parse (stairs 31).text = .ok (stairs 31)
      ∧ Tree.ofText ((stairs 31).toTree.text .compact) ≠ .ok (stairs 31).toTree
      ∧ (¬∃ t, Tree.ofText ((stairs 31).toTree.text .indented) = .ok t)
      ∧ ∀ (o : Manner) (w : Machine), ∃ e, (Task.ofCommand o (.ofTree none)).Prints
        (w.withInput (Report.tree o true (stairs 31).toTree)) (.error (.decode e)) := by
  have hread := parse_stairs (n := 31) (by decide)
  have hdepth : ¬2 * (stairs 31).toTree.depth + 1 ≤ Json.maxNesting := by
    rw [depth_toTree_stairs]
    decide
  have hback : (stairs 31).toTree.toJson.NumbersReadBack := by decide +kernel
  refine ⟨hread, ?_, ?_, fun o w => ?_⟩
  · rw [Ne, Tree.ofText_text_iff hback, Filter.readable_toTree_iff]
    exact hdepth
  · have hnone := @Filter.ofText_toTree_iff (stairs 31) hback .indented [] Json.spaces_nil
    rw [String.ofList_nil, String.append_empty] at hnone
    rw [hnone]
    exact hdepth
  · obtain ⟨g, hcanonical, -, -⟩ := exists_canonical hread
    exact (prints_ofTree_tree o o true w hback hcanonical).2.2 hdepth

end TagQuery
