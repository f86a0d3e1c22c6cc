import TagQuery.Proofs.Tree.Decoding
import TagQuery.Proofs.Tree.Recoding

/-!
# What a tree keeps of a value

A tree that has been decoded from a value of object nodes is written as that value without what stands for
nothing: in every node, down through the elements, the members with a key that nobody asks for, those that
are `null`, and a list of elements that is empty (`Json.pruned`).  All else is kept as it is, the words that
nobody knows and the whole of a `value` too, each under its own key:

    v.ordered = v → ObjectNodes v → ofJson v = .ok t → t.toJson.ordered = v.pruned
      ∧ ∀ layout levels, v.nesting ≤ levels → readWithin levels (t.text layout) = .ok v.pruned
                                                                            (encoding_undoes_decoding)
-/

namespace TagQuery

namespace Json

mutual

/-- The value without what stands for nothing in a node. -/
def pruned : Json → Json
  | .object members => .object (prunedMembers members)
  | v => v

/-- The members of a node that stand for something. -/
def prunedMembers : List (String × Json) → List (String × Json)
  | [] => []
  | (key, v) :: ms =>
    match wordOf? Field key with
    | none => prunedMembers ms
    | some f =>
      match prunedField f v with
      | none => prunedMembers ms
      | some w => (key, w) :: prunedMembers ms

/-- The value of a field, if it stands for something. -/
def prunedField : Field → Json → Option Json
  | _, .null => none
  | .elements, .array [] => none
  | .elements, .array (v :: vs) => some (.array (v.pruned :: prunedItems vs))
  | _, v => some v

def prunedItems : List Json → List Json
  | [] => []
  | v :: vs => v.pruned :: prunedItems vs

end

/-- The value is an object, and so is each of its elements, and each of theirs. -/
inductive ObjectNodes : Json → Prop where
  | object {members : List (String × Json)}
      (inside : ∀ items, (Field.elements.text, .array items) ∈ members → ∀ v ∈ items, ObjectNodes v) :
      ObjectNodes (.object members)

theorem prunedItems_eq (vs : List Json) : prunedItems vs = vs.map pruned := by
  induction vs with
  | nil => rfl
  | cons v vs ih => rw [prunedItems, ih, List.map_cons]

theorem prunedMembers_eq (ms : List (String × Json)) :
    prunedMembers ms = ms.filterMap fun m => do
      let f ← wordOf? Field m.1
      let w ← prunedField f m.2
      return (m.1, w) := by
  induction ms with
  | nil => rfl
  | cons m ms ih =>
    rw [prunedMembers, ih, List.filterMap_cons]
    cases wordOf? Field m.1 with
    | none => rfl
    | some f => cases h : prunedField f m.2 <;> simp [h]

/-- What is kept stands under the key of a field, as the value that is left of it. -/
theorem mem_prunedMembers {ms : List (String × Json)} {key : String} {w : Json} :
    (key, w) ∈ prunedMembers ms
      ↔ ∃ f v, key = Field.text f ∧ (key, v) ∈ ms ∧ prunedField f v = some w := by
  rw [prunedMembers_eq, List.mem_filterMap]
  constructor
  · rintro ⟨⟨k, v⟩, hv, h⟩
    obtain ⟨f, hf, h⟩ := Option.bind_eq_some_iff.1 h
    obtain ⟨u, hu, h⟩ := Option.bind_eq_some_iff.1 h
    obtain ⟨rfl, rfl⟩ := Prod.mk.inj (Option.some.inj h)
    exact ⟨f, v, (spelling_of_wordOf? hf).symm, hv, hu⟩
  · rintro ⟨f, v, rfl, hv, hw⟩
    have hword : wordOf? Field f.text = some f := wordOf?_spelling f
    exact ⟨(f.text, v), hv, by simp [hword, hw]⟩

/-- Under a key other than `elements`, a member is kept as it is, or left out. -/
theorem mem_prunedMembers_of_ne {ms : List (String × Json)} {key : String} {w : Json}
    (other : key ≠ "elements") :
    (key, w) ∈ prunedMembers ms
      ↔ key ∈ ["type", "logicalOperator", "elements", "name", "entity", "operator", "key", "stringValue",
          "numberValue", "booleanValue", "value"] ∧ (key, w) ∈ ms ∧ w ≠ .null := by
  have hfield : ∀ {f : Field} {v : Json}, key = f.text →
      (prunedField f v = some w ↔ v ≠ .null ∧ v = w) := by
    rintro f v rfl
    have hf : f ≠ .elements := by
      rintro rfl
      exact other rfl
    unfold prunedField
    split <;> simp_all
  rw [mem_prunedMembers, ← Field.exists_text_iff]
  constructor
  · rintro ⟨f, v, hkey, hv, hw⟩
    obtain ⟨hnull, rfl⟩ := (hfield hkey).1 hw
    exact ⟨⟨f, hkey⟩, hv, hnull⟩
  · rintro ⟨⟨f, hkey⟩, hv, hnull⟩
    exact ⟨f, w, hkey, hv, (hfield hkey).2 ⟨hnull, rfl⟩⟩

/-- Elements are kept if there are any, each without what stands for nothing. -/
theorem mem_prunedMembers_elements {ms : List (String × Json)} {w : Json} :
    ("elements", w) ∈ prunedMembers ms ↔ ∃ v, ("elements", v) ∈ ms ∧
      (v ≠ .null ∧ (∀ items, v ≠ .array items) ∧ w = v
        ∨ ∃ u us, v = .array (u :: us) ∧ w = .array ((u :: us).map pruned)) := by
  have hfield : ∀ {f : Field} {v : Json}, "elements" = f.text → (prunedField f v = some w ↔
      v ≠ .null ∧ (∀ items, v ≠ .array items) ∧ w = v
        ∨ ∃ u us, v = .array (u :: us) ∧ w = .array ((u :: us).map pruned)) := by
    intro f v hkey
    obtain rfl : Field.elements = f := Field.text_inj hkey
    cases v with
    | array items => cases items <;> simp [prunedField, prunedItems_eq, eq_comm]
    | _ => simp [prunedField, eq_comm]
  rw [mem_prunedMembers]
  constructor
  · rintro ⟨f, v, hkey, hv, hw⟩
    exact ⟨v, hv, (hfield hkey).1 hw⟩
  · rintro ⟨v, hv, hw⟩
    exact ⟨.elements, v, rfl, hv, (hfield rfl).2 hw⟩

/-- The keys are in the order of the members. -/
theorem keys_prunedMembers (ms : List (String × Json)) :
    ((prunedMembers ms).map Prod.fst).Sublist (ms.map Prod.fst) := by
  induction ms with
  | nil => exact List.Sublist.refl _
  | cons m ms ih =>
    rw [prunedMembers]
    split
    · exact ih.cons _
    · split
      · exact ih.cons _
      · exact ih.cons_cons _

theorem sorted_prunedMembers {ms : List (String × Json)} (h : Sorted ms) :
    Sorted (prunedMembers ms) :=
  List.pairwise_map.1 ((List.pairwise_map.2 h).sublist (keys_prunedMembers ms))

end Json

namespace Tree

open TagQuery.Json

/-! ## Fields -/

/-- What a value is decoded as, unless it is `null`, is written as the value, and the field can be set
to it. -/
theorem toJson_of_ofJson {type : FieldType} {v : Json} {x : FieldValue}
    (h : FieldValue.ofJson type v = .ok x) :
    v = .null ∧ x = .unset ∨ v ≠ .null ∧ x.toJson = v ∧ ∀ f : Field, f.type? = some type → x.Fits f := by
  have hnumber : ∀ f : Field, f.type? = some .number → f = .numberValue := by
    intro f
    cases f <;> simp [Field.type?]
  have hboolean : ∀ f : Field, f.type? = some .boolean → f = .booleanValue := by
    intro f
    cases f <;> simp [Field.type?]
  have hany : ∀ f : Field, f.type? = some .any → f = .value := by
    intro f
    cases f <;> simp [Field.type?]
  unfold FieldValue.ofJson at h
  split at h
  · exact .inl ⟨rfl, (Except.ok.inj h).symm⟩
  · next hnull =>
    obtain rfl := Except.ok.inj h
    exact .inr ⟨hnull, rfl, fun f hf => hany f hf ▸ .any _⟩
  · obtain rfl := Except.ok.inj h
    exact .inr ⟨by simp, rfl, fun f hf => .string _ hf⟩
  · obtain rfl := Except.ok.inj h
    exact .inr ⟨by simp, rfl, fun f hf => hnumber f hf ▸ .number _⟩
  · obtain rfl := Except.ok.inj h
    exact .inr ⟨by simp, rfl, fun f hf => hboolean f hf ▸ .boolean _⟩
  · simp at h

/-- The tree is written as what is left of the value. -/
structure WrittenAs (t : Tree) (v : Json) : Prop where
  value : t.toJson.ordered = v.pruned
  nesting : t.toJson.nesting ≤ v.nesting

theorem ordered_elements {items : List Json} {ts : List Tree}
    (h : List.Forall₂ (fun v t => WrittenAs t v) items ts) :
    (ts.map toJson).map Json.ordered = items.map Json.pruned
      ∧ nestingItems (ts.map toJson) ≤ nestingItems items := by
  induction h with
  | nil => exact ⟨rfl, Nat.le_refl _⟩
  | cons own later ih =>
    simp only [List.map_cons, nestingItems, own.value, ih.1, true_and]
    exact max_le_max own.nesting ih.2

/-- What the value of a field that has been decoded is written as: what is left of the value, or
nothing, where the field is not set. -/
theorem prunedField_of_fieldOfJson {f : Field} {v : Json} {x : FieldValue} (ordered : v.ordered = v)
    (h : fieldOfJson f v = .ok x)
    (inside : ∀ items, f = .elements → v = .array items → ∀ u ∈ items, ∀ t, ofJson u = .ok t →
      WrittenAs t u) :
    x.Fits f ∧ prunedField f v = some x.toJson.ordered ∧ x.toJson.nesting ≤ v.nesting
      ∨ ¬x.Fits f ∧ prunedField f v = none := by
  unfold fieldOfJson at h
  split at h
  · next type htype =>
    have hother : f ≠ .elements := by
      rintro rfl
      simp [Field.type?] at htype
    rcases toJson_of_ofJson h with ⟨rfl, rfl⟩ | ⟨hnull, hvalue, hfits⟩
    · exact .inr ⟨by rintro ⟨⟩, by simp [prunedField]⟩
    · refine .inl ⟨hfits f htype, ?_, hvalue ▸ Nat.le_refl _⟩
      rw [hvalue, ordered]
      unfold prunedField
      split <;> simp_all
  · next htype =>
    obtain rfl : f = .elements := by cases f <;> simp_all [Field.type?]
    rw [Except.map_eq_bind] at h
    obtain ⟨ts, hts, hx⟩ := Except.bind_ok_iff.1 h
    obtain rfl := Except.ok.inj hx
    unfold ofElements at hts
    split at hts
    · next items =>
      have hall := ofItems_ok_iff.1 hts
      have hwritten : List.Forall₂ (fun v t => WrittenAs t v) items ts :=
        ((List.forall₂_and_left _ _).2 ⟨inside items rfl rfl, hall⟩).imp fun v t h => h.1 t h.2
      obtain ⟨hvalue, hnesting⟩ := ordered_elements hwritten
      cases items with
      | nil =>
        obtain rfl := List.forall₂_nil_left_iff.1 hall
        exact .inr ⟨by rintro ⟨⟩; contradiction, rfl⟩
      | cons v vs =>
        refine .inl ⟨?_, ?_, Nat.succ_le_succ hnesting⟩
        · cases hall
          exact .elements (by simp)
        · rw [FieldValue.toJson, Json.ordered, orderedItems_eq, hvalue, prunedField, prunedItems_eq]
          rfl
    · simp at hts

/-! ## Nodes -/

/-- No key is written twice. -/
theorem nodup_writtenKeys (t : Tree) :
    ((t.entries.map fun e => (e.1.text, e.2.toJson)).map Prod.fst).Nodup := by
  have hkeys : ((t.entries.map Prod.fst).map Field.text).Nodup :=
    List.pairwise_map.2 ((nodup_entries t).imp fun hne heq => hne (Field.text_inj heq))
  rwa [List.map_map] at hkeys ⊢

/-- A node that has been decoded from an object is written as what is left of the object: member by
member, and then by the order of the keys. -/
theorem writtenAs_of_object {ms : List (String × Json)} {t : Tree}
    (ordered : (Json.object ms).ordered = .object ms) (h : ofJson (.object ms) = .ok t)
    (inside : ∀ items, (Field.elements.text, .array items) ∈ ms → ∀ u ∈ items, u.ordered = u →
      ∀ t, ofJson u = .ok t → WrittenAs t u) : WrittenAs t (.object ms) := by
  obtain ⟨hsorted, hordered⟩ := ordered_object_iff.1 ordered
  obtain ⟨es, hes, rfl⟩ := ofJson_object_iff.1 h
  have hnodup := hes.nodup hsorted.nodup_keys
  have hfield : ∀ {f : Field} {v : Json} {x : FieldValue}, (f.text, v) ∈ ms →
      fieldOfJson f v = .ok x →
      x.Fits f ∧ prunedField f v = some x.toJson.ordered ∧ x.toJson.nesting ≤ v.nesting
        ∨ ¬x.Fits f ∧ prunedField f v = none := by
    intro f v x hv hx
    refine prunedField_of_fieldOfJson (hordered _ hv) hx ?_
    rintro items rfl rfl u hu
    exact inside items hv u hu (ordered_array_iff.1 (hordered _ hv) u hu)
  have hentries : ∀ {f : Field} {x : FieldValue}, (f, x) ∈ (ofFields es).entries →
      ∃ v, (f.text, v) ∈ ms ∧ prunedField f v = some x.toJson.ordered
        ∧ x.toJson.nesting ≤ v.nesting := by
    intro f x hx
    obtain ⟨hmem, hfits⟩ := (get?_ofFields hnodup).1 (mem_entries.1 hx)
    obtain ⟨v, hv, hvalue⟩ := hes.exists_member hmem
    rcases hfield hv hvalue with ⟨-, hleft⟩ | ⟨hnot, -⟩
    · exact ⟨v, hv, hleft⟩
    · exact absurd hfits hnot
  constructor
  · have hkeys := nodup_writtenKeys (ofFields es)
    rw [← keys_orderedMembers] at hkeys
    rw [toJson_eq, Json.ordered, Json.pruned, Json.object.injEq]
    refine (sortMembers_spec _).1.eq_of_mem_iff (sorted_prunedMembers hsorted) ?_
    rintro ⟨key, w⟩
    rw [(perm_sortMembers hkeys).mem_iff, mem_prunedMembers, orderedMembers_eq, List.map_map,
      List.mem_map]
    constructor
    · rintro ⟨⟨f, x⟩, hx, heq⟩
      obtain ⟨rfl, rfl⟩ := Prod.mk.inj heq
      obtain ⟨v, hv, hleft, -⟩ := hentries hx
      exact ⟨f, v, rfl, hv, hleft⟩
    · rintro ⟨f, v, rfl, hv, hw⟩
      obtain ⟨x, hx, hvalue⟩ := hes.exists_field hv
      rcases hfield hv hvalue with ⟨hfits, hleft, -⟩ | ⟨-, hnone⟩
      · have hentry : (f, x) ∈ (ofFields es).entries :=
          mem_entries.2 ((get?_ofFields hnodup).2 ⟨hx, hfits⟩)
        exact ⟨(f, x), hentry, by simp [Option.some.inj (hw.symm.trans hleft)]⟩
      · simp [hw] at hnone
  · rw [Json.nesting]
    refine nesting_toJson_le fun e he => ?_
    obtain ⟨v, hv, -, hnesting⟩ := hentries he
    exact hnesting.trans (nesting_le_of_mem_members hv)

theorem writtenAs_of_ofJson {v : Json} {t : Tree} (nodes : ObjectNodes v) (ordered : v.ordered = v)
    (h : ofJson v = .ok t) : WrittenAs t v := by
  induction nodes generalizing t with
  | object inside ih =>
    exact writtenAs_of_object ordered h fun items hitems u hu hordered t ht =>
      ih items hitems u hu hordered ht

/-- **Encoding undoes decoding**, up to what stands for nothing: the tree of a value of object nodes is
written as the value without it, and its text, in any layout, is read as just that if its numbers are
read back. -/
theorem encoding_undoes_decoding {v : Json} {t : Tree} (ordered : v.ordered = v)
    (nodes : ObjectNodes v) (h : ofJson v = .ok t) :
    t.toJson.ordered = v.pruned ∧ (t.toJson.NumbersReadBack → ∀ (layout : Layout) (levels : Nat),
      v.nesting ≤ levels → readWithin levels (t.text layout) = .ok v.pruned) := by
  obtain ⟨hvalue, hnesting⟩ := writtenAs_of_ofJson nodes ordered h
  refine ⟨hvalue, fun back layout levels hlevels => ?_⟩
  have hread := readWithin_text (hnesting.trans hlevels) back layout spaces_nil
  simpa [Tree.text, hvalue] using hread

/-! ## A value with more than a tree keeps -/

/-- A leaf with an origin that nobody knows, no elements, no operator, values of all types, a key that
nobody asks for and a value of its own that looks like a node. -/
def crowdedLeaf : Json :=
  .object [("booleanValue", .boolean false), ("elements", .array []), ("entity", .string "NOWHERE"),
    ("name", .string "a"), ("numberValue", .number (.binary (.zero true))), ("operator", .null),
    ("stringValue", .string ""),
    ("value", .object [("elements", .array []), ("name", .null), ("x", .string "\u0001")]),
    ("x", .array [.null])]

/-- A group with a connective that nobody knows and the leaf. -/
def crowdedGroup : Json :=
  .object [("elements", .array [crowdedLeaf]), ("key", .null), ("logicalOperator", .string "XOR"),
    ("note", .boolean true), ("type", .string "EXPRESSION")]

/-- What is left of it. -/
def crowdedGroupPruned : Json :=
  .object [("elements", .array [.object [("booleanValue", .boolean false), ("entity", .string "NOWHERE"),
      ("name", .string "a"), ("numberValue", .number (.binary (.zero true))), ("stringValue", .string ""),
      ("value", .object [("elements", .array []), ("name", .null), ("x", .string "\u0001")])]]),
    ("logicalOperator", .string "XOR"), ("type", .string "EXPRESSION")]

/-- The tree that it stands for. -/
def crowdedTree : Tree :=
  ⟨{ kind := some (.known .expression), connective := some (.other "XOR") },
    [⟨{ name := some "a", entity := some (.other "NOWHERE"), stringValue := some "",
        numberValue := some (.binary (.zero true)), booleanValue := some false,
        value := some (.object [("elements", .array []), ("name", .null), ("x", .string "\u0001")]) }, []⟩]⟩

theorem objectNodes_crowded : ObjectNodes crowdedGroup := by
  have hleaf : ObjectNodes crowdedLeaf := by
    refine .object fun items hitems => ?_
    obtain rfl : items = [] := by simpa [Field.text] using hitems
    simp
  refine .object fun items hitems => ?_
  obtain rfl : items = [crowdedLeaf] := by simpa [Field.text] using hitems
  exact List.forall_mem_singleton.2 hleaf

/-- All that is left is kept, and nothing else. -/
theorem encoding_undoes_decoding_crowded :
    crowdedGroup.ordered = crowdedGroup ∧ ObjectNodes crowdedGroup
      ∧ ofJson crowdedGroup = .ok crowdedTree ∧ crowdedGroup.pruned = crowdedGroupPruned
      ∧ crowdedTree.toJson.ordered = crowdedGroup.pruned ∧ crowdedTree.toJson.NumbersReadBack
      ∧ ∀ (layout : Layout) (levels : Nat), crowdedGroup.nesting ≤ levels →
        readWithin levels (crowdedTree.text layout) = .ok crowdedGroup.pruned := by
  have hordered : crowdedGroup.ordered = crowdedGroup := by decide +kernel
  have hdecoded : ofJson crowdedGroup = .ok crowdedTree := by decide +kernel
  have hpruned : crowdedGroup.pruned = crowdedGroupPruned := by decide +kernel
  have hback : crowdedTree.toJson.NumbersReadBack := by decide +kernel
  obtain ⟨hvalue, hread⟩ := encoding_undoes_decoding hordered objectNodes_crowded hdecoded
  exact ⟨hordered, objectNodes_crowded, hdecoded, hpruned, hvalue, hback, hread hback⟩

end Tree

end TagQuery
