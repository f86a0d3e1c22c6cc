import TagQuery.Proofs.Json.Depth

/-!
# The order of members

An object means its members, in whatever order they stand.  `ordered v` is the value with the members of
each object by key, as a reader lists them: what a value is read back as from its text.

    v.nesting ≤ levels → v.NumbersReadBack →
      readWithin levels (v.text layout) = .ok v.ordered                                  (readWithin_text)
    Readable levels v → v.ordered = v                                                 (Readable.ordered)

Where no key comes twice, ordering members loses none (`perm_sortMembers`), and two objects with the same
members are ordered alike (`Sorted.eq_of_mem_iff`).
-/

namespace TagQuery.Json

/-! ## Members by key -/

theorem perm_insertMember {key : String} {v : Json} {ms : List (String × Json)}
    (apart : key ∉ ms.map Prod.fst) : (insertMember key v ms).Perm ((key, v) :: ms) := by
  induction ms with
  | nil => exact List.Perm.refl _
  | cons m ms ih =>
    obtain ⟨k, w⟩ := m
    have hne : key ≠ k := fun heq => apart (heq ▸ List.mem_cons_self)
    have hms : key ∉ ms.map Prod.fst := fun hmem => apart (List.mem_cons_of_mem _ hmem)
    unfold insertMember
    split
    · exact List.Perm.refl _
    · exact ((ih hms).cons _).trans (List.Perm.swap _ _ _)

/-- Ordering the members loses none, where no key comes twice. -/
theorem perm_sortMembers {ms : List (String × Json)} (nodup : (ms.map Prod.fst).Nodup) :
    (sortMembers ms).Perm ms := by
  -- The members that have been listed stand behind those to come.
  have step : ∀ (ms listed : List (String × Json)), ((ms ++ listed).map Prod.fst).Nodup →
      (ms.foldl (fun sorted m => insertMember m.1 m.2 sorted) listed).Perm (ms ++ listed) := by
    intro ms
    induction ms with
    | nil => exact fun listed _ => List.Perm.refl listed
    | cons m ms ih =>
      intro listed hnodup
      obtain ⟨hapart, -⟩ := List.nodup_cons.1 hnodup
      have hinsert : (insertMember m.1 m.2 listed).Perm (m :: listed) := by
        apply perm_insertMember
        intro hmem
        exact hapart (by simp [List.mem_map.1 hmem])
      have hmiddle : (ms ++ insertMember m.1 m.2 listed).Perm (m :: (ms ++ listed)) :=
        (hinsert.append_left ms).trans List.perm_middle
      exact (ih _ ((hmiddle.map Prod.fst).nodup_iff.2 hnodup)).trans hmiddle
  have hall := step ms [] (by rwa [List.append_nil])
  rwa [List.append_nil] at hall

theorem Sorted.nodup_keys {ms : List (String × Json)} (h : Sorted ms) : (ms.map Prod.fst).Nodup :=
  List.pairwise_map.2 (h.imp fun hlt => ne_of_lt hlt)

theorem Sorted.nodup {ms : List (String × Json)} (h : Sorted ms) : ms.Nodup :=
  h.imp fun hlt heq => ne_of_lt hlt (congrArg Prod.fst heq)

/-- Members by key are known by which they are. -/
theorem Sorted.eq_of_mem_iff {ms ns : List (String × Json)} (hms : Sorted ms) (hns : Sorted ns)
    (h : ∀ m, m ∈ ms ↔ m ∈ ns) : ms = ns := by
  have hperm : ms.Perm ns := (List.perm_ext_iff_of_nodup hms.nodup hns.nodup).2 h
  exact hperm.eq_of_pairwise (fun m n _ _ hlt hgt => absurd hgt (not_lt_of_gt hlt)) hms hns

/-! ## Values by key -/

mutual

/-- The value with the members of each object by key; of two with the same key the later one stays. -/
def ordered : Json → Json
  | .array items => .array (orderedItems items)
  | .object members => .object (sortMembers (orderedMembers members))
  | v => v

def orderedItems : List Json → List Json
  | [] => []
  | v :: vs => v.ordered :: orderedItems vs

def orderedMembers : List (String × Json) → List (String × Json)
  | [] => []
  | (key, v) :: ms => (key, v.ordered) :: orderedMembers ms

end

theorem orderedItems_eq (vs : List Json) : orderedItems vs = vs.map ordered := by
  induction vs with
  | nil => rfl
  | cons v vs ih => rw [orderedItems, ih, List.map_cons]

theorem orderedMembers_eq (ms : List (String × Json)) :
    orderedMembers ms = ms.map fun m => (m.1, m.2.ordered) := by
  induction ms with
  | nil => rfl
  | cons m ms ih => rw [orderedMembers, ih, List.map_cons]

theorem keys_orderedMembers (ms : List (String × Json)) :
    (orderedMembers ms).map Prod.fst = ms.map Prod.fst := by
  rw [orderedMembers_eq, List.map_map]
  rfl

theorem Scalar.ordered_toJson (s : Scalar) : s.toJson.ordered = s.toJson := by
  cases s <;> rfl

theorem ordered_array_iff {vs : List Json} :
    (Json.array vs).ordered = .array vs ↔ ∀ v ∈ vs, v.ordered = v := by
  have hsame := @List.map_inj_left _ _ vs ordered id
  rwa [List.map_id, ← orderedItems_eq, ← Json.array.injEq] at hsame

theorem ordered_object_iff {ms : List (String × Json)} :
    (Json.object ms).ordered = .object ms ↔ Sorted ms ∧ ∀ m ∈ ms, m.2.ordered = m.2 := by
  have hkeys : Sorted (orderedMembers ms) ↔ Sorted ms := by
    rw [Sorted, Sorted, ← List.pairwise_map, keys_orderedMembers, List.pairwise_map]
  have hsame : orderedMembers ms = ms ↔ ∀ m ∈ ms, m.2.ordered = m.2 := by
    have hsame := @List.map_inj_left _ _ ms (fun m => (m.1, m.2.ordered)) id
    rw [List.map_id, ← orderedMembers_eq] at hsame
    simpa [Prod.ext_iff] using hsame
  rw [ordered, Json.object.injEq]
  constructor
  · intro h
    have hsorted : Sorted ms := h ▸ (sortMembers_spec (orderedMembers ms)).1
    rw [sortMembers_sorted (hkeys.2 hsorted)] at h
    exact ⟨hsorted, hsame.1 h⟩
  · rintro ⟨hsorted, hvalues⟩
    rw [hsame.2 hvalues, sortMembers_sorted hsorted]

/-- What a reader gives is ordered. -/
theorem Readable.ordered {levels : Nat} {v : Json} (h : Readable levels v) : v.ordered = v := by
  induction h with
  | scalar s => exact s.ordered_toJson
  | array inside ih => exact ordered_array_iff.2 ih
  | object sorted inside ih => exact ordered_object_iff.2 ⟨sorted, ih⟩

/-! ## Reading back -/

theorem nesting_le_of_mem {v : Json} {vs : List Json} (h : v ∈ vs) : v.nesting ≤ nestingItems vs := by
  induction vs with
  | nil => simp at h
  | cons w vs ih =>
    rcases List.mem_cons.1 h with rfl | h
    · exact Nat.le_max_left _ _
    · exact (ih h).trans (Nat.le_max_right _ _)

theorem nesting_le_of_mem_members {m : String × Json} {ms : List (String × Json)} (h : m ∈ ms) :
    m.2.nesting ≤ nestingMembers ms := by
  induction ms with
  | nil => simp at h
  | cons n ms ih =>
    rcases List.mem_cons.1 h with rfl | h
    · exact Nat.le_max_left _ _
    · exact (ih h).trans (Nat.le_max_right _ _)

/-- **A value is read back as what it is ordered to**, in any layout, if its numbers are read back. -/
theorem takes_ordered {levels : Nat} {v : Json} (h : v.nesting ≤ levels) (back : v.NumbersReadBack)
    (layout : Layout) (level : Nat) : Takes (readValue levels) (v.chars layout level) v.ordered := by
  cases v with
  | null => exact @takes_scalar levels .null back
  | boolean b =>
    have htakes := @takes_scalar levels (.boolean b) back
    rwa [← Scalar.chars_toJson _ layout level] at htakes
  | number n => exact @takes_scalar levels (.number n) back
  | string s => exact @takes_scalar levels (.string s) back
  | array items =>
    cases levels with
    | zero => simp [nesting] at h
    | succ levels =>
      have hitems := Nat.le_of_succ_le_succ h
      rw [ordered, orderedItems_eq]
      exact takes_array fun v hv =>
        takes_ordered ((nesting_le_of_mem hv).trans hitems) (NumbersReadBack.array_iff.1 back v hv) layout
          (level + 1)
  | object members =>
    cases levels with
    | zero => simp [nesting] at h
    | succ levels =>
      have hmembers := Nat.le_of_succ_le_succ h
      rw [ordered, orderedMembers_eq]
      exact takes_object fun m hm =>
        takes_ordered ((nesting_le_of_mem_members hm).trans hmembers)
          (NumbersReadBack.object_iff.1 back m hm)
          layout (level + 1)
termination_by levels

/-- Reads a whole text whose arrays and objects may be nested `levels` deep. -/
def readWithin (levels : Nat) (text : String) : Except Fault Json := do
  let (v, c) ← readValue levels (.ofText text)
  readEnd c
  return v

/-- The text of a value is read as what the value is ordered to, white space behind it or not. -/
theorem readWithin_text {levels : Nat} {v : Json} (h : v.nesting ≤ levels) (back : v.NumbersReadBack)
    (layout : Layout) {sp : List Char} (hsp : Spaces sp) :
    readWithin levels (v.text layout ++ String.ofList sp) = .ok v.ordered := by
  have htext : v.text layout ++ String.ofList sp = String.ofList (v.chars layout 0 ++ sp) := by
    rw [text, String.ofList_append]
  rw [htext]
  exact (takes_ordered h back layout 0).whole hsp

end TagQuery.Json
