import TagQuery.Tree.Decode

/-!
# The fields of a node

A node is a map from fields to values, of which it holds those that are set:

    (t.setField f x).get? g = if g = f then some x else t.get? g                  (get?_setField)
    (ofFields es).get? f = some x ↔ (f, x) ∈ es ∧ x.Fits f                        (get?_ofFields)

Setting the fields of a node one by one gives the node (`ofFields_entries`), if its words are those that
their texts are read as (`Label.Regular`), and the object that a tree prints as lists them (`toJson_eq`).
-/

namespace TagQuery

/-! ## Words -/

/-- The word is what its text is read as: a spelling that is known is no unknown word. -/
def Open.Regular {α : Type} [Vocabulary α] (w : Open α) : Prop :=
  Open.ofText w.text = w

theorem Open.regular_ofText {α : Type} [Vocabulary α] (text : String) :
    (Open.ofText text : Open α).Regular := by
  rw [Open.Regular, Open.text_ofText]

theorem Open.regular_known {α : Type} [Vocabulary α] (a : α) : (Open.known a).Regular :=
  Open.ofText_spelling a

theorem Open.Regular.eq {α : Type} [Vocabulary α] {w v : Open α} (hw : w.Regular) (hv : v.Regular)
    (h : w.text = v.text) : w = v := by
  rw [← hw, ← hv, h]

/-- The words of the label are what their texts are read as. -/
structure Label.Regular (l : Label) : Prop where
  kind : ∀ w ∈ l.kind, w.Regular
  connective : ∀ w ∈ l.connective, w.Regular
  entity : ∀ w ∈ l.entity, w.Regular
  operator : ∀ w ∈ l.operator, w.Regular

/-! ## Keys -/

/-- The keys of fields are these eleven. -/
theorem Field.exists_text_iff {key : String} :
    (∃ f : Field, key = f.text) ↔
      key ∈ ["type", "logicalOperator", "elements", "name", "entity", "operator", "key", "stringValue",
        "numberValue", "booleanValue", "value"] := by
  have hall : Field.all.map Field.text =
      ["type", "logicalOperator", "elements", "name", "entity", "operator", "key", "stringValue",
        "numberValue", "booleanValue", "value"] := rfl
  rw [← hall, List.mem_map]
  constructor
  · rintro ⟨f, rfl⟩
    exact ⟨f, Vocabulary.mem_all f, rfl⟩
  · rintro ⟨f, -, rfl⟩
    exact ⟨f, rfl⟩

/-! ## Values of fields -/

/-- The value as JSON. -/
def FieldValue.toJson : FieldValue → Json
  | .string text => .string text
  | .number value => .number value
  | .boolean value => .boolean value
  | .any value => value
  | .elements trees => .array (trees.map Tree.toJson)
  | .unset => .null

/-- The value is one that the field can be set to. -/
inductive FieldValue.Fits : Field → FieldValue → Prop where
  | string {f : Field} (text : String) (type : f.type? = some .string) : Fits f (.string text)
  | number (value : Number) : Fits .numberValue (.number value)
  | boolean (value : Bool) : Fits .booleanValue (.boolean value)
  | any (value : Json) : Fits .value (.any value)
  | elements {trees : List Tree} (some : trees ≠ []) : Fits .elements (.elements trees)

namespace Tree

/-- The value of a field, if it is set. -/
def get? (t : Tree) : Field → Option FieldValue
  | .kind => t.label.kind.map fun w => .string w.text
  | .connective => t.label.connective.map fun w => .string w.text
  | .elements => if t.elements.isEmpty then none else some (.elements t.elements)
  | .name => t.label.name.map .string
  | .entity => t.label.entity.map fun w => .string w.text
  | .operator => t.label.operator.map fun w => .string w.text
  | .key => t.label.key.map .string
  | .stringValue => t.label.stringValue.map .string
  | .numberValue => t.label.numberValue.map .number
  | .booleanValue => t.label.booleanValue.map .boolean
  | .value => t.label.value.map .any

theorem get?_empty (f : Field) : empty.get? f = none := by
  cases f <;> rfl

/-- What is set is a value of the field's type. -/
theorem fits_get? {t : Tree} {f : Field} {x : FieldValue} (h : t.get? f = some x) : x.Fits f := by
  cases f with
  | elements =>
    simp only [get?] at h
    split at h
    · simp at h
    · next hsome =>
      obtain rfl := Option.some.inj h
      exact .elements (by simpa using hsome)
  | numberValue =>
    obtain ⟨n, -, rfl⟩ := Option.map_eq_some_iff.1 h
    exact .number n
  | booleanValue =>
    obtain ⟨b, -, rfl⟩ := Option.map_eq_some_iff.1 h
    exact .boolean b
  | value =>
    obtain ⟨v, -, rfl⟩ := Option.map_eq_some_iff.1 h
    exact .any v
  | _ =>
    obtain ⟨s, -, rfl⟩ := Option.map_eq_some_iff.1 h
    exact .string _ rfl

theorem get?_setField {t : Tree} {f : Field} {x : FieldValue} (h : x.Fits f) (g : Field) :
    (t.setField f x).get? g = if g = f then some x else t.get? g := by
  cases h with
  | string text type => cases f <;> cases g <;> simp_all [setField, get?, Field.type?]
  | number value => cases g <;> simp [setField, get?]
  | boolean value => cases g <;> simp [setField, get?]
  | any value => cases g <;> simp [setField, get?]
  | elements some => cases g <;> simp [setField, get?, some]

/-- Setting a field leaves the others as they are, whatever it is set to. -/
theorem get?_setField_of_ne {t : Tree} {f g : Field} (h : g ≠ f) (x : FieldValue) :
    (t.setField f x).get? g = t.get? g := by
  cases f <;> cases x <;> first | rfl | (cases g <;> first | rfl | exact absurd rfl h)

/-- A field that was not set is set to the value, if the value fits. -/
theorem get?_setField_self {t : Tree} {f : Field} {x y : FieldValue} (h : t.get? f = none) :
    (t.setField f x).get? f = some y ↔ x = y ∧ x.Fits f := by
  constructor
  · intro hget
    have hsame : x = y := by
      cases f <;> cases x <;> simp_all [setField, get?]
    exact ⟨hsame, hsame ▸ fits_get? hget⟩
  · rintro ⟨rfl, hfits⟩
    rw [get?_setField hfits, if_pos rfl]

theorem word_ext {α : Type} [Vocabulary α] {v w : Option (Open α)} (hv : ∀ a ∈ v, a.Regular)
    (hw : ∀ a ∈ w, a.Regular)
    (h : (v.map fun a => FieldValue.string a.text) = w.map fun a => FieldValue.string a.text) :
    v = w := by
  cases v with
  | none =>
    cases w with
    | none => rfl
    | some b => simp at h
  | some a =>
    cases w with
    | none => simp at h
    | some b =>
      have htext : a.text = b.text := by simpa using h
      rw [(hv a rfl).eq (hw b rfl) htext]

theorem elements_ext {t u : Tree} (h : t.get? .elements = u.get? .elements) :
    t.elements = u.elements := by
  cases ht : t.elements with
  | nil =>
    cases hu : u.elements with
    | nil => rfl
    | cons x xs => simp [get?, ht, hu] at h
  | cons x xs =>
    cases hu : u.elements with
    | nil => simp [get?, ht, hu] at h
    | cons y ys => simpa [get?, ht, hu] using h

/-- Trees whose fields have the same values are the same. -/
theorem ext_get? {t u : Tree} (ht : t.label.Regular) (hu : u.label.Regular)
    (h : ∀ f, t.get? f = u.get? f) : t = u := by
  have hkind := word_ext ht.kind hu.kind (h .kind)
  have hconnective := word_ext ht.connective hu.connective (h .connective)
  have hentity := word_ext ht.entity hu.entity (h .entity)
  have hoperator := word_ext ht.operator hu.operator (h .operator)
  have helements := elements_ext (h .elements)
  have hname := (Option.map_inj_right (by simp)).1 (h .name)
  have hkey := (Option.map_inj_right (by simp)).1 (h .key)
  have hstring := (Option.map_inj_right (by simp)).1 (h .stringValue)
  have hnumber := (Option.map_inj_right (by simp)).1 (h .numberValue)
  have hboolean := (Option.map_inj_right (by simp)).1 (h .booleanValue)
  have hvalue := (Option.map_inj_right (by simp)).1 (h .value)
  obtain ⟨⟨_, _, _, _, _, _, _, _, _, _⟩, _⟩ := t
  obtain ⟨⟨_, _, _, _, _, _, _, _, _, _⟩, _⟩ := u
  simp only at hkind hconnective hentity hoperator helements hname hkey hstring hnumber hboolean hvalue
  subst hkind hconnective hentity hoperator helements hname hkey hstring hnumber hboolean hvalue
  rfl

/-! ## Fields one by one -/

/-- The fields that are set, of `fs`, with their values. -/
def entriesOf (t : Tree) (fs : List Field) : List (Field × FieldValue) :=
  fs.filterMap fun f => (t.get? f).map fun x => (f, x)

/-- The fields that are set, with their values, in the order in which they are written. -/
def entries (t : Tree) : List (Field × FieldValue) :=
  t.entriesOf Field.all

theorem nodup_entries (t : Tree) : (t.entries.map Prod.fst).Nodup := by
  have hsub : (t.entries.map Prod.fst).Sublist Field.all := by
    unfold entries
    generalize Field.all = fs
    induction fs with
    | nil => simp [entriesOf]
    | cons f fs ih =>
      cases h : t.get? f with
      | none =>
        have hentries : t.entriesOf (f :: fs) = t.entriesOf fs := by simp [entriesOf, h]
        rw [hentries]
        exact ih.cons f
      | some x =>
        have hentries : t.entriesOf (f :: fs) = (f, x) :: t.entriesOf fs := by simp [entriesOf, h]
        rw [hentries]
        exact ih.cons_cons f
  exact hsub.nodup (by decide)

theorem get?_of_mem_entries {t : Tree} {e : Field × FieldValue} (h : e ∈ t.entries) :
    t.get? e.1 = some e.2 := by
  obtain ⟨f, -, hf⟩ := List.mem_filterMap.1 h
  obtain ⟨x, hx, rfl⟩ := Option.map_eq_some_iff.1 hf
  exact hx

theorem mem_entries {t : Tree} {e : Field × FieldValue} : e ∈ t.entries ↔ t.get? e.1 = some e.2 := by
  refine ⟨get?_of_mem_entries, fun h => List.mem_filterMap.2 ⟨e.1, Vocabulary.mem_all e.1, ?_⟩⟩
  rw [h, Option.map_some]

/-- Setting fields one by one; the others stay as they are. -/
theorem get?_foldl (t u : Tree) (fs : List Field) (g : Field) :
    ((t.entriesOf fs).foldl (fun u e => u.setField e.1 e.2) u).get? g
      = if g ∈ fs then (t.get? g).or (u.get? g) else u.get? g := by
  induction fs generalizing u with
  | nil => simp [entriesOf]
  | cons f fs ih =>
    cases hf : t.get? f with
    | none =>
      have hentries : t.entriesOf (f :: fs) = t.entriesOf fs := by simp [entriesOf, hf]
      rw [hentries, ih]
      by_cases hg : g = f
      · simp [hg, hf]
      · simp [hg]
    | some x =>
      have hentries : t.entriesOf (f :: fs) = (f, x) :: t.entriesOf fs := by simp [entriesOf, hf]
      rw [hentries, List.foldl_cons, ih, get?_setField (fits_get? hf)]
      by_cases hg : g = f
      · simp [hg, hf]
      · simp [hg]

theorem regular_empty : empty.label.Regular where
  kind := by simp [empty]
  connective := by simp [empty]
  entity := by simp [empty]
  operator := by simp [empty]

/-- What is set has been read from its text. -/
theorem regular_setField {t : Tree} (h : t.label.Regular) (f : Field) (x : FieldValue) :
    (t.setField f x).label.Regular := by
  unfold setField
  split
  · exact { h with kind := fun w hw => Option.some.inj hw ▸ Open.regular_ofText _ }
  · exact { h with connective := fun w hw => Option.some.inj hw ▸ Open.regular_ofText _ }
  · exact h
  · exact { h with }
  · exact { h with entity := fun w hw => Option.some.inj hw ▸ Open.regular_ofText _ }
  · exact { h with operator := fun w hw => Option.some.inj hw ▸ Open.regular_ofText _ }
  all_goals exact { h with }

theorem regular_ofFields (fields : List (Field × FieldValue)) : (ofFields fields).label.Regular := by
  have step : ∀ (t : Tree), t.label.Regular →
      (fields.foldl (fun t f => t.setField f.1 f.2) t).label.Regular := by
    induction fields with
    | nil => exact fun t h => h
    | cons f fields ih => exact fun t h => ih _ (regular_setField h f.1 f.2)
  exact step empty regular_empty

/-- **The fields of a node make up the node.** -/
theorem ofFields_entries {t : Tree} (h : t.label.Regular) : ofFields t.entries = t := by
  apply ext_get? (regular_ofFields _) h
  intro f
  have hget := get?_foldl t empty Field.all f
  have hmem : f ∈ Field.all := Vocabulary.mem_all f
  rw [if_pos hmem, get?_empty, Option.or_none] at hget
  exact hget

/-! ## Fields in any order -/

/-- The fields of a node that is put together from a list of them, each but once. -/
theorem get?_ofFields {es : List (Field × FieldValue)} (nodup : (es.map Prod.fst).Nodup) {f : Field}
    {x : FieldValue} : (ofFields es).get? f = some x ↔ (f, x) ∈ es ∧ x.Fits f := by
  -- The fields that are still to come are not set yet.
  have step : ∀ (es : List (Field × FieldValue)) (t : Tree), (es.map Prod.fst).Nodup →
      (∀ e ∈ es, t.get? e.1 = none) →
      ((es.foldl (fun t e => t.setField e.1 e.2) t).get? f = some x
        ↔ t.get? f = some x ∨ (f, x) ∈ es ∧ x.Fits f) := by
    intro es
    induction es with
    | nil => simp
    | cons e es ih =>
      obtain ⟨g, y⟩ := e
      intro t hnodup hunset
      obtain ⟨hapart, hnodup⟩ := List.nodup_cons.1 hnodup
      obtain ⟨hg, hes⟩ := List.forall_mem_cons.1 hunset
      have hlater : ∀ e ∈ es, (t.setField g y).get? e.1 = none := by
        intro e he
        have hne : e.1 ≠ g := fun heq => hapart (List.mem_map.2 ⟨e, he, heq⟩)
        rw [get?_setField_of_ne hne, hes e he]
      rw [List.foldl_cons, ih _ hnodup hlater]
      by_cases hfg : f = g
      · subst hfg
        have hnot : (f, x) ∉ es := fun hmem => hapart (List.mem_map.2 ⟨_, hmem, rfl⟩)
        rw [get?_setField_self hg]
        constructor
        · rintro (⟨rfl, hfits⟩ | ⟨hmem, -⟩)
          · exact .inr ⟨List.mem_cons_self, hfits⟩
          · exact absurd hmem hnot
        · rintro (hset | ⟨hmem, hfits⟩)
          · simp [hset] at hg
          · rcases List.mem_cons.1 hmem with heq | hmem
            · obtain rfl := (Prod.mk.inj heq).2
              exact .inl ⟨rfl, hfits⟩
            · exact absurd hmem hnot
      · rw [get?_setField_of_ne hfg]
        simp [hfg]
  have hall := step es empty nodup fun e _ => get?_empty e.1
  simpa [get?_empty, ofFields] using hall

/-- The order of fields does not matter, each of them being there but once. -/
theorem ofFields_perm {es fs : List (Field × FieldValue)} (h : es.Perm fs)
    (nodup : (es.map Prod.fst).Nodup) : ofFields es = ofFields fs := by
  apply ext_get? (regular_ofFields es) (regular_ofFields fs)
  intro f
  apply Option.ext
  intro x
  rw [get?_ofFields nodup, get?_ofFields ((h.map Prod.fst).nodup_iff.1 nodup), h.mem_iff]

/-! ## Fields as JSON -/

theorem toJsons_eq (ts : List Tree) : toJsons ts = ts.map toJson := by
  induction ts with
  | nil => rfl
  | cons t ts ih => simp [toJsons, ih]

theorem field?_eq (t : Tree) (f : Field) :
    t.label.field? ((t.get? .elements).map FieldValue.toJson) f
      = (t.get? f).map FieldValue.toJson := by
  cases f with
  | value => cases h : t.label.value <;> simp [Label.field?, get?, h, FieldValue.toJson]
  | elements => rfl
  | _ =>
    simp only [Label.field?, get?, Option.map_map]
    rfl

/-- A node is an object of its fields. -/
theorem toJson_eq (t : Tree) :
    t.toJson = .object (t.entries.map fun e => (e.1.text, e.2.toJson)) := by
  have hmembers : t.toJson
      = .object (t.label.members ((t.get? .elements).map FieldValue.toJson)) := by
    obtain ⟨l, elements⟩ := t
    cases elements with
    | nil => rfl
    | cons u us => simp [toJson, toJsons_eq, get?, FieldValue.toJson]
  have hentries : t.label.members ((t.get? .elements).map FieldValue.toJson)
      = t.entries.map fun e => (e.1.text, e.2.toJson) := by
    unfold Label.members entries entriesOf
    rw [List.map_filterMap]
    congr
    funext f
    rw [field?_eq, Option.map_map, Option.map_map]
    rfl
  rw [hmembers, hentries]

end Tree

end TagQuery
