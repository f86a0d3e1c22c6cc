import TagQuery.Proofs.Json.Skipping
import TagQuery.Proofs.Tree.Decoding
import TagQuery.Proofs.Tree.Nodes

/-!
# Two ways to decode a text

A tree is decoded from a text as it is read, or from the finished value of the text.  The first way takes
the fields of a node as they come, whether by name or in order; the second one sees them by key, when the
whole text has been read.  Where the nodes of a text have no keys but those of fields, and none of them
twice, both ways take the same texts, and give the same trees:

    (∀ keys ∈ nodeKeys maxNesting (.ofText text), PlainKeys keys) →
      (ofText text = .ok t ↔ ∃ v, read text = .ok v ∧ ofJson v = .ok t)                (ofText_iff_ofJson)

`Agrees read decode levels c` says this of one reader at one place; it holds of a reader of nodes if it
holds at the places of the nodes inside (`elementPlaces`), which are found by passing over values. -/

namespace TagQuery

open TagQuery.Json

/-! ## The nodes of a text -/

namespace Json

/-- Where the items of an array are, from the place `c` inside it on, as far as there are any. -/
def itemPlaces (first : Bool) (c : Cursor) : List Cursor :=
  match nextItem first c with
  | .ok (some d, _) =>
    match skipValue d with
    | .ok e => if _h : e.rest.length < c.rest.length then d :: itemPlaces false e else [d]
    | .error _ => [d]
  | _ => []
termination_by c.rest.length
decreasing_by exact _h

/-- The next key of an object, with the place of its value. -/
def nextMember (first : Bool) (c : Cursor) : Except Fault (Option (String × Cursor)) := do
  let (next, _) ← nextKey first c
  match next with
  | none => return none
  | some d =>
    let (key, d) ← readString d
    return some (key, ← readColon d)

/-- The keys of an object, each with the place of its value, from the place `c` inside it on, as far as
there are any. -/
def keyPlaces (first : Bool) (c : Cursor) : List (String × Cursor) :=
  match nextMember first c with
  | .ok (some (key, d)) =>
    match skipValue d with
    | .ok e => if _h : e.rest.length < c.rest.length then (key, d) :: keyPlaces false e else [(key, d)]
    | .error _ => [(key, d)]
  | _ => []
termination_by c.rest.length
decreasing_by exact _h

end Json

namespace Tree

/-- The keys of a node, each with the place of its value; an array lists the fields in order. -/
def fieldPlaces (c : Cursor) : List (String × Cursor) :=
  match c.skipSpace.rest with
  | '\x7b' :: rest => keyPlaces true ⟨c.skipSpace.place.after '\x7b', rest⟩
  | '[' :: rest =>
    (Field.all.zip (itemPlaces true ⟨c.skipSpace.place.after '[', rest⟩)).map fun m => (m.1.text, m.2)
  | _ => []

/-- Where the items of a list are. -/
def listPlaces (c : Cursor) : List Cursor :=
  match c.skipSpace.rest with
  | '[' :: rest => itemPlaces true ⟨c.skipSpace.place.after '[', rest⟩
  | _ => []

/-- Where the elements of a node are. -/
def elementPlaces (c : Cursor) : List Cursor :=
  ((fieldPlaces c).filter fun m => m.1 == Field.elements.text).flatMap fun m => listPlaces m.2

/-- The keys of the node at the place, and of the nodes inside it, `levels` deep. -/
def nodeKeys : Nat → Cursor → List (List String)
  | 0, _ => []
  | levels + 1, c => (fieldPlaces c).map Prod.fst :: (elementPlaces c).flatMap (nodeKeys levels)

/-- Each key is that of a field, and none comes twice. -/
structure PlainKeys (keys : List String) : Prop where
  known : ∀ key ∈ keys, ∃ f : Field, key = f.text
  nodup : keys.Nodup

/-! ## Agreement -/

/-- At the place, the reader gives what the value that is read there stands for. -/
def Agrees {α : Type} (read : Cursor → Except Fault (α × Cursor)) (decode : Json → Except DecodeError α)
    (levels : Nat) (c : Cursor) : Prop :=
  ∀ x d, read c = .ok (x, d) ↔ ∃ v, readValue levels c = .ok (v, d) ∧ decode v = .ok x

variable {levels : Nat} {c : Cursor}

/-! ## Values of fields -/

/-- A value that starts with the letter of `null`. -/
theorem readValue_null {rest : List Char} (start : c.skipSpace.rest = 'n' :: rest) :
    readValue levels c = (do
      return (.null, ← readWord ⟨c.skipSpace.place.after 'n', rest⟩ "ull".toList)) := by
  cases levels <;> simp only [readValue, start, Char.reduceEq, if_false, if_true, readScalar] <;>
    cases readWord ⟨c.skipSpace.place.after 'n', rest⟩ "ull".toList <;> rfl

theorem agrees_readField_any : Agrees (readField .any levels) (FieldValue.ofJson .any) levels c := by
  intro x d
  have hspace := readValue_skipSpace levels c
  unfold readField
  simp only
  split
  · next start =>
    have hfail : readValue levels c = .error (c.skipSpace.fault (.endOfInput .value)) := by
      cases levels <;> simp only [readValue, start]
    simp [hfail]
  · next ch rest start =>
    split
    · next hn =>
      subst hn
      rw [readValue_null start]
      simp only [Except.bind_ok_iff, pure, Except.pure, Except.ok.injEq, Prod.mk.injEq]
      constructor
      · rintro ⟨e, hword, rfl, rfl⟩
        exact ⟨.null, ⟨e, hword, rfl, rfl⟩, rfl⟩
      · rintro ⟨v, ⟨e, hword, rfl, rfl⟩, hx⟩
        exact ⟨e, hword, Except.ok.inj hx, rfl⟩
    · next hn =>
      have hany {v : Json} {e : Cursor} (hv : readValue levels c = .ok (v, e)) :
          FieldValue.ofJson .any v = .ok (.any v) := by
        cases v with
        | null =>
          have hhead := head_of_readValue_null hv
          rw [start] at hhead
          exact absurd (Option.some.inj hhead) hn
        | _ => rfl
      simp only [hspace, Except.bind_ok_iff, pure, Except.pure, Except.ok.injEq, Prod.mk.injEq]
      constructor
      · rintro ⟨⟨v, e⟩, hv, rfl, rfl⟩
        exact ⟨v, hv, hany hv⟩
      · rintro ⟨v, hv, hx⟩
        rw [hany hv] at hx
        exact ⟨(v, d), hv, Except.ok.inj hx, rfl⟩

section

variable {ch : Char} {rest : List Char} {x : FieldValue} {d : Cursor}

/-- A scalar that starts with `ch` at the place, and stands for the value `x` of a field. -/
def FieldRead (type : FieldType) (c : Cursor) (ch : Char) (rest : List Char) (x : FieldValue)
    (d : Cursor) : Prop :=
  ∃ s, ScalarRead c.skipSpace ⟨c.skipSpace.place.after ch, rest⟩ ch s d
    ∧ FieldValue.ofJson type s.toJson = .ok x

theorem readField_null_iff {type : FieldType} (start : c.skipSpace.rest = 'n' :: rest) :
    readField type levels c = .ok (x, d) ↔ FieldRead type c 'n' rest x d := by
  simp only [readField, start, if_true]
  constructor
  · intro h
    obtain ⟨e, hword, h⟩ := Except.bind_ok_iff.1 h
    obtain ⟨rfl, rfl⟩ := Prod.mk.inj (Except.ok.inj h)
    exact ⟨.null, .null hword, by cases type <;> rfl⟩
  · rintro ⟨s, hread, hx⟩
    cases hread with
    | null word =>
      obtain rfl : FieldValue.unset = x := by cases type <;> exact Except.ok.inj hx
      simp only [word]
      rfl
    | number digit => exact absurd digit (by decide)

theorem readField_string_iff (start : c.skipSpace.rest = ch :: rest) (hn : ch ≠ 'n') :
    readField .string levels c = .ok (x, d) ↔ FieldRead .string c ch rest x d := by
  simp only [readField, start, if_neg hn]
  constructor
  · intro h
    split at h
    · next hquote =>
      subst hquote
      obtain ⟨⟨s, e⟩, hown, h⟩ := Except.bind_ok_iff.1 h
      obtain ⟨rfl, rfl⟩ := Prod.mk.inj (Except.ok.inj h)
      exact ⟨.string s, .string hown, rfl⟩
    · simp at h
  · rintro ⟨s, hread, hx⟩
    cases hread with
    | string own =>
      obtain rfl := Except.ok.inj hx
      simp only [if_true, own]
      rfl
    | null => exact absurd rfl hn
    | _ => simp [FieldValue.ofJson, Scalar.toJson] at hx

theorem readField_boolean_iff (start : c.skipSpace.rest = ch :: rest) (hn : ch ≠ 'n') :
    readField .boolean levels c = .ok (x, d) ↔ FieldRead .boolean c ch rest x d := by
  simp only [readField, start, if_neg hn]
  constructor
  · intro h
    split at h
    · next ht =>
      subst ht
      obtain ⟨e, hword, h⟩ := Except.bind_ok_iff.1 h
      obtain ⟨rfl, rfl⟩ := Prod.mk.inj (Except.ok.inj h)
      exact ⟨.boolean true, .yes hword, rfl⟩
    · split at h
      · next hf =>
        subst hf
        obtain ⟨e, hword, h⟩ := Except.bind_ok_iff.1 h
        obtain ⟨rfl, rfl⟩ := Prod.mk.inj (Except.ok.inj h)
        exact ⟨.boolean false, .no hword, rfl⟩
      · simp at h
  · rintro ⟨s, hread, hx⟩
    cases hread with
    | yes word | no word =>
      obtain rfl := Except.ok.inj hx
      simp only [Char.reduceEq, if_true, if_false, word]
      rfl
    | null => exact absurd rfl hn
    | _ => simp [FieldValue.ofJson, Scalar.toJson] at hx

theorem readField_number_iff (start : c.skipSpace.rest = ch :: rest) (hn : ch ≠ 'n') :
    readField .number levels c = .ok (x, d) ↔ FieldRead .number c ch rest x d := by
  simp only [readField, start, if_neg hn]
  constructor
  · intro h
    split at h
    · next hstart =>
      split at h
      · next hminus =>
        subst hminus
        obtain ⟨⟨n, e⟩, hown, h⟩ := Except.bind_ok_iff.1 h
        obtain ⟨rfl, rfl⟩ := Prod.mk.inj (Except.ok.inj h)
        exact ⟨.number n, .negative hown, rfl⟩
      · next hminus =>
        obtain ⟨⟨n, e⟩, hown, h⟩ := Except.bind_ok_iff.1 h
        obtain ⟨rfl, rfl⟩ := Prod.mk.inj (Except.ok.inj h)
        exact ⟨.number n, .number (hstart.resolve_left hminus) hown, rfl⟩
    · simp at h
  · rintro ⟨s, hread, hx⟩
    cases hread with
    | negative own =>
      obtain rfl := Except.ok.inj hx
      simp only [true_or, if_true, own]
      rfl
    | number digit own =>
      have hminus := ne_of_isDigit digit (d := '-') (by decide)
      obtain rfl := Except.ok.inj hx
      simp only [hminus, digit, or_true, if_true, if_false, own]
      rfl
    | null => exact absurd rfl hn
    | _ => simp [FieldValue.ofJson, Scalar.toJson] at hx

/-- A field of a certain type is read from a scalar. -/
theorem readField_ok_iff {type : FieldType} (certain : type ≠ .any) :
    readField type levels c = .ok (x, d)
      ↔ ∃ ch rest, c.skipSpace.rest = ch :: rest ∧ FieldRead type c ch rest x d := by
  cases start : c.skipSpace.rest with
  | nil => simp [readField, start]
  | cons ch rest =>
    have hfield : readField type levels c = .ok (x, d) ↔ FieldRead type c ch rest x d := by
      by_cases hn : ch = 'n'
      · subst hn
        exact readField_null_iff start
      · cases type with
        | any => exact absurd rfl certain
        | string => exact readField_string_iff start hn
        | boolean => exact readField_boolean_iff start hn
        | number => exact readField_number_iff start hn
    rw [hfield]
    constructor
    · exact fun h => ⟨ch, rest, rfl, h⟩
    · rintro ⟨ch', rest', hstart, h⟩
      obtain ⟨rfl, rfl⟩ := List.cons.inj hstart
      exact h

end

theorem agrees_readField (type : FieldType) :
    Agrees (readField type levels) (FieldValue.ofJson type) levels c := by
  by_cases certain : type = .any
  · exact certain ▸ agrees_readField_any
  · intro x d
    rw [readField_ok_iff certain]
    constructor
    · rintro ⟨ch, rest, start, s, hread, hx⟩
      have hvalue : ValueRead levels c s.toJson d :=
        .scalar start hread.noBracket.1 hread.noBracket.2 (readScalar_ok_iff.2 hread)
      exact ⟨s.toJson, hvalue.readValue_eq, hx⟩
    · rintro ⟨v, hv, hx⟩
      cases valueRead_of_readValue hv with
      | array | object => cases type <;> first | exact absurd rfl certain | simp [FieldValue.ofJson] at hx
      | scalar start noArray noObject own => exact ⟨_, _, start, _, readScalar_ok_iff.1 own, hx⟩

/-! ## Items -/

section

variable {α : Type} {item : Cursor → Except Fault (α × Cursor)} {first : Bool} {p d e : Cursor}

/-- An item and those behind it. -/
theorem readItems_cons_iff (next : nextItem first c = .ok (some p, e)) {xs : List α} :
    readItems item first c = .ok (xs, d) ↔ ∃ x e ys, item p = .ok (x, e) ∧ e.rest.length < c.rest.length
      ∧ readItems item false e = .ok (ys, d) ∧ xs = x :: ys := by
  rw [readItems, next]
  simp only [Except.ok_bind]
  constructor
  · intro h
    obtain ⟨⟨x, e⟩, hitem, h⟩ := Except.bind_ok_iff.1 h
    simp only at h
    split at h
    · next short =>
      obtain ⟨⟨ys, e'⟩, hlater, h⟩ := Except.bind_ok_iff.1 h
      obtain ⟨rfl, rfl⟩ := Prod.mk.inj (Except.ok.inj h)
      exact ⟨x, e, ys, hitem, short, hlater, rfl⟩
    · simp at h
  · rintro ⟨x, e, ys, hitem, short, hlater, rfl⟩
    simp only [hitem, Except.ok_bind, dif_pos short, hlater]
    rfl

theorem readItems_close_iff (next : nextItem first c = .ok (none, e)) {xs : List α} :
    readItems item first c = .ok (xs, d) ↔ xs = [] ∧ d = e := by
  rw [readItems, next]
  simp only [Except.ok_bind, pure, Except.pure, Except.ok.injEq, Prod.mk.injEq]
  exact ⟨fun h => ⟨h.1.symm, h.2.symm⟩, fun h => ⟨h.1.symm, h.2.symm⟩⟩

theorem readItems_error {f : Fault} (next : nextItem first c = .error f) :
    readItems item first c = .error f := by
  rw [readItems, next]
  rfl

theorem exists_itemPlaces (next : nextItem first c = .ok (some p, e)) :
    ∃ ps, itemPlaces first c = p :: ps := by
  rw [itemPlaces, next]
  simp only
  split
  · split <;> exact ⟨_, rfl⟩
  · exact ⟨_, rfl⟩

/-- The places of the items behind one. -/
theorem itemPlaces_cons (next : nextItem first c = .ok (some p, e)) (skip : skipValue p = .ok d)
    (short : d.rest.length < c.rest.length) : itemPlaces first c = p :: itemPlaces false d := by
  rw [itemPlaces, next]
  simp only [skip, dif_pos short]

end

/-- The elements of a list are read as the items of an array, if that is so for each of them. -/
theorem readItems_ok_iff {node : Cursor → Except Fault (Tree × Cursor)} {first : Bool} {c : Cursor}
    (agrees : ∀ p ∈ itemPlaces first c, Agrees node ofJson levels p) {ts : List Tree} {d : Cursor} :
    readItems node first c = .ok (ts, d)
      ↔ ∃ vs, readItems (readValue levels) first c = .ok (vs, d) ∧ ofItems vs = .ok ts := by
  cases hnext : nextItem first c with
  | error f => simp [readItems_error hnext]
  | ok next =>
    obtain ⟨_ | p, e⟩ := next
    · simp only [readItems_close_iff hnext]
      constructor
      · rintro ⟨rfl, rfl⟩
        exact ⟨[], ⟨rfl, rfl⟩, rfl⟩
      · rintro ⟨vs, ⟨rfl, rfl⟩, hts⟩
        exact ⟨(Except.ok.inj hts).symm, rfl⟩
    · obtain ⟨ps, hps⟩ := exists_itemPlaces hnext
      have hagrees := agrees p (hps ▸ List.mem_cons_self)
      have hlater {v : Json} {e' : Cursor} (hv : readValue levels p = .ok (v, e'))
          (short : e'.rest.length < c.rest.length) :
          ∀ q ∈ itemPlaces false e', Agrees node ofJson levels q := by
        intro q hq
        apply agrees
        rw [itemPlaces_cons hnext (skipValue_of_readValue hv) short]
        exact List.mem_cons_of_mem _ hq
      simp only [readItems_cons_iff hnext]
      constructor
      · rintro ⟨t, e', us, hitem, short, hus, rfl⟩
        obtain ⟨v, hv, hdecode⟩ := (hagrees t e').1 hitem
        obtain ⟨vs, hvs, hdecodes⟩ := (readItems_ok_iff (hlater hv short)).1 hus
        refine ⟨v :: vs, ⟨v, e', vs, hv, short, hvs, rfl⟩, ?_⟩
        rw [ofItems, hdecode, Except.ok_bind, hdecodes]
        rfl
      · rintro ⟨vs, ⟨v, e', ws, hv, short, hws, rfl⟩, hts⟩
        obtain ⟨t, hdecode, hts⟩ := Except.bind_ok_iff.1 hts
        obtain ⟨us, hdecodes, hts⟩ := Except.bind_ok_iff.1 hts
        have hus := (readItems_ok_iff (hlater hv short)).2 ⟨ws, hws, hdecodes⟩
        exact ⟨t, e', us, (hagrees t e').2 ⟨v, hv, hdecode⟩, short, hus, (Except.ok.inj hts).symm⟩
termination_by c.rest.length

/-- The elements of a node. -/
theorem agrees_readElements {node : Cursor → Except Fault (Tree × Cursor)}
    (inside : ∀ p ∈ listPlaces c, Agrees node ofJson (levels - 1) p) :
    Agrees (readElements node levels) (fieldOfJson .elements) levels c := by
  intro x d
  constructor
  · intro h
    unfold readElements at h
    simp only at h
    split at h
    · simp at h
    · next ch rest start =>
      split at h
      · next hbracket =>
        subst hbracket
        split at h
        · simp at h
        · next hlevels =>
          obtain ⟨n, rfl⟩ := Nat.exists_eq_succ_of_ne_zero hlevels
          obtain ⟨⟨ts, e⟩, hitems, h⟩ := Except.bind_ok_iff.1 h
          obtain ⟨e', hclose, h⟩ := Except.bind_ok_iff.1 h
          obtain ⟨rfl, rfl⟩ := Prod.mk.inj (Except.ok.inj h)
          simp only [listPlaces, start] at inside
          obtain ⟨vs, hvs, hts⟩ := (readItems_ok_iff inside).1 hitems
          refine ⟨.array vs, (ValueRead.array start hvs hclose).readValue_eq, ?_⟩
          show (ofItems vs).map FieldValue.elements = _
          rw [hts]
          rfl
      · simp at h
  · rintro ⟨v, hv, hx⟩
    have helements : (ofElements v).map FieldValue.elements = .ok x := hx
    rw [Except.map_eq_bind] at helements
    obtain ⟨ts, hts, helements⟩ := Except.bind_ok_iff.1 helements
    obtain rfl := Except.ok.inj helements
    cases valueRead_of_readValue hv with
    | array start hitems close =>
      simp only [listPlaces, start] at inside
      have hread := (readItems_ok_iff inside).2 ⟨_, hitems, hts⟩
      simp only [readElements, start, if_true, Nat.succ_ne_zero, if_false, hread, Except.ok_bind, close]
      rfl
    | object => simp [ofElements] at hts
    | @scalar _ _ _ _ _ s => cases s <;> simp [ofElements, Scalar.toJson] at hts

/-! ## Fields in order -/

theorem endArray_skipSpace (c : Cursor) : endArray c.skipSpace = endArray c := by
  simp only [endArray, c.skipSpace_skipSpace]

/-- Where an array can end, there is no item. -/
theorem nextItem_of_endArray {d : Cursor} (h : endArray c = .ok d) (first : Bool) :
    nextItem first c = .ok (none, c.skipSpace) := by
  obtain ⟨rest, start, -⟩ := eq_of_endArray h
  simp only [nextItem, start, if_true]

theorem readItemFields_cons_iff {value : Field → Cursor → Except Fault (FieldValue × Cursor)} {f : Field}
    {fs : List Field} {first : Bool} {p e d : Cursor} (next : nextItem first c = .ok (some p, e))
    {es : List (Field × FieldValue)} :
    readItemFields value (f :: fs) first c = .ok (es, d) ↔ ∃ x e fields, value f p = .ok (x, e)
      ∧ readItemFields value fs false e = .ok (fields, d) ∧ es = (f, x) :: fields := by
  simp only [readItemFields, next, Except.ok_bind, Except.bind_ok_iff, pure, Except.pure,
    Except.ok.injEq, Prod.exists, Prod.mk.injEq]
  constructor
  · rintro ⟨x, e, hx, fields, _, hfields, rfl, rfl⟩
    exact ⟨x, e, fields, hx, hfields, rfl⟩
  · rintro ⟨x, e, fields, hx, hfields, rfl⟩
    exact ⟨x, e, hx, fields, _, hfields, rfl, rfl⟩

theorem fieldsOfItems_cons (f : Field) (fs : List Field) (v : Json) (vs : List Json) :
    fieldsOfItems (f :: fs) (v :: vs) = (do
      let x ← fieldOfJson f v
      return (f, x) :: (← fieldsOfItems fs vs)) := by
  rw [fieldsOfItems, fieldOfJson]
  cases f.type? <;> rfl

/-- Where an array ends, no item stands. -/
theorem endArray_ok_iff {α : Type} {value : Cursor → Except Fault (α × Cursor)} {first : Bool}
    {c d : Cursor} :
    endArray c = .ok d ↔ ∃ e, readItems value first c = .ok ([], e) ∧ endArray e = .ok d := by
  constructor
  · intro close
    refine ⟨c.skipSpace, ?_, endArray_skipSpace c ▸ close⟩
    exact (readItems_close_iff (nextItem_of_endArray close first)).2 ⟨rfl, rfl⟩
  · rintro ⟨e, h, close⟩
    cases hnext : nextItem first c with
    | error f => simp [readItems_error hnext] at h
    | ok next =>
      obtain ⟨_ | p, e'⟩ := next
      · obtain rfl : e' = c.skipSpace := (nextItem_spec hnext).2
        obtain ⟨-, rfl⟩ := (readItems_close_iff hnext).1 h
        exact endArray_skipSpace c ▸ close
      · obtain ⟨_, _, _, -, -, -, hcons⟩ := (readItems_cons_iff hnext).1 h
        simp at hcons

/-- The first field is read as the first item, if the others are read as the other items. -/
theorem readItemFields_item {f : Field} {fs : List Field} {first : Bool} {c p e d : Cursor}
    (next : nextItem first c = .ok (some p, e))
    (head : Agrees (readEntry levels f) (fieldOfJson f) levels p)
    (tail : ∀ {v e}, readValue levels p = .ok (v, e) → ∀ {es},
      (∃ e', readItemFields (readEntry levels) fs false e = .ok (es, e') ∧ endArray e' = .ok d)
        ↔ ∃ vs e', readItems (readValue levels) false e = .ok (vs, e') ∧ endArray e' = .ok d
          ∧ vs.length ≤ fs.length ∧ fieldsOfItems fs vs = .ok es)
    {es : List (Field × FieldValue)} :
    (∃ e, readItemFields (readEntry levels) (f :: fs) first c = .ok (es, e) ∧ endArray e = .ok d)
      ↔ ∃ vs e, readItems (readValue levels) first c = .ok (vs, e) ∧ endArray e = .ok d
        ∧ vs.length ≤ (f :: fs).length ∧ fieldsOfItems (f :: fs) vs = .ok es := by
  constructor
  · rintro ⟨e', h, close⟩
    obtain ⟨x, e₁, fields, hx, hfields, rfl⟩ := (readItemFields_cons_iff next).1 h
    obtain ⟨v, hv, hdecode⟩ := (head x e₁).1 hx
    obtain ⟨vs, e₂, hvs, close, hlength, hdecodes⟩ := (tail hv).1 ⟨e', hfields, close⟩
    have hshort := (length_of_readValue hv).trans_le (nextItem_spec next).1.length_le
    refine ⟨v :: vs, e₂, (readItems_cons_iff next).2 ⟨v, e₁, vs, hv, hshort, hvs, rfl⟩, close,
      Nat.succ_le_succ hlength, ?_⟩
    rw [fieldsOfItems_cons, hdecode, Except.ok_bind, hdecodes]
    rfl
  · rintro ⟨_, e', h, close, hlength, hdecodes⟩
    obtain ⟨v, e₁, vs, hv, -, hvs, rfl⟩ := (readItems_cons_iff next).1 h
    rw [fieldsOfItems_cons] at hdecodes
    obtain ⟨x, hdecode, hdecodes⟩ := Except.bind_ok_iff.1 hdecodes
    obtain ⟨fields, hrest, hcons⟩ := Except.bind_ok_iff.1 hdecodes
    obtain rfl := Except.ok.inj hcons
    obtain ⟨e₂, hfields, close⟩ :=
      (tail hv).2 ⟨vs, e', hvs, close, Nat.le_of_succ_le_succ hlength, hrest⟩
    exact ⟨e₂, (readItemFields_cons_iff next).2
      ⟨x, e₁, fields, (head x e₁).2 ⟨v, hv, hdecode⟩, hfields, rfl⟩, close⟩

/-- The fields of an array are read as its items, of which there are no more than fields. -/
theorem readItemFields_ok_iff {fs : List Field} {first : Bool} {c d : Cursor}
    (agrees : ∀ m ∈ fs.zip (itemPlaces first c), Agrees (readEntry levels m.1) (fieldOfJson m.1) levels m.2)
    {es : List (Field × FieldValue)} :
    (∃ e, readItemFields (readEntry levels) fs first c = .ok (es, e) ∧ endArray e = .ok d)
      ↔ ∃ vs e, readItems (readValue levels) first c = .ok (vs, e) ∧ endArray e = .ok d
        ∧ vs.length ≤ fs.length ∧ fieldsOfItems fs vs = .ok es := by
  induction fs generalizing first c es with
  | nil =>
    constructor
    · rintro ⟨e, h, close⟩
      obtain ⟨rfl, rfl⟩ := Prod.mk.inj (Except.ok.inj h)
      obtain ⟨e, hitems, close⟩ := endArray_ok_iff.1 close
      exact ⟨[], e, hitems, close, Nat.le_refl _, rfl⟩
    · rintro ⟨vs, e, h, close, hlength, hfields⟩
      obtain rfl := List.eq_nil_of_length_eq_zero (Nat.le_zero.1 hlength)
      obtain rfl : [] = es := Except.ok.inj hfields
      exact ⟨c, rfl, endArray_ok_iff.2 ⟨e, h, close⟩⟩
  | cons f fs ih =>
    cases hnext : nextItem first c with
    | error fault => simp [readItems_error hnext, readItemFields, hnext]
    | ok next =>
      obtain ⟨_ | p, e⟩ := next
      · simp only [readItems_close_iff hnext, readItemFields, hnext, Except.ok_bind, pure, Except.pure,
          Except.ok.injEq, Prod.mk.injEq]
        constructor
        · rintro ⟨_, ⟨rfl, rfl⟩, close⟩
          exact ⟨[], e, ⟨rfl, rfl⟩, close, Nat.zero_le _, rfl⟩
        · rintro ⟨vs, _, ⟨rfl, rfl⟩, close, -, hfields⟩
          exact ⟨_, ⟨Except.ok.inj hfields, rfl⟩, close⟩
      · obtain ⟨ps, hps⟩ := exists_itemPlaces hnext
        refine readItemFields_item hnext (agrees (f, p) ?_) fun hv => ih fun m hm => agrees m ?_
        · rw [hps, List.zip_cons_cons]
          exact List.mem_cons_self
        · have hshort := (length_of_readValue hv).trans_le (nextItem_spec hnext).1.length_le
          rw [itemPlaces_cons hnext (skipValue_of_readValue hv) hshort, List.zip_cons_cons]
          exact List.mem_cons_of_mem _ hm

/-! ## Fields by key -/

section

variable {α : Type} {first : Bool} {p d e : Cursor} {key : String}

theorem nextMember_some (next : nextMember first c = .ok (some (key, p))) :
    ∃ k k' d, nextKey first c = .ok (some k, k') ∧ readString k = .ok (key, d)
      ∧ readColon d = .ok p := by
  obtain ⟨⟨_ | k, k'⟩, hkey, h⟩ := Except.bind_ok_iff.1 next
  · simp [pure, Except.pure] at h
  · obtain ⟨⟨name, d⟩, hname, h⟩ := Except.bind_ok_iff.1 h
    obtain ⟨p', hcolon, h⟩ := Except.bind_ok_iff.1 h
    obtain ⟨rfl, rfl⟩ := Prod.mk.inj (Option.some.inj (Except.ok.inj h))
    exact ⟨k, k', d, hkey, hname, hcolon⟩

theorem nextMember_none (next : nextMember first c = .ok none) :
    nextKey first c = .ok (none, c.skipSpace) := by
  obtain ⟨⟨_ | k, k'⟩, hkey, h⟩ := Except.bind_ok_iff.1 next
  · obtain rfl : k' = c.skipSpace := (nextKey_spec hkey).2
    exact hkey
  · obtain ⟨⟨name, d⟩, -, h⟩ := Except.bind_ok_iff.1 h
    obtain ⟨p', -, h⟩ := Except.bind_ok_iff.1 h
    simp [pure, Except.pure] at h

theorem nextMember_of_nextKey_none (h : nextKey first c = .ok (none, d)) :
    nextMember first c = .ok none := by
  rw [nextMember, h]
  rfl

theorem nextMember_of_nextKey_some {k k' : Cursor} (hkey : nextKey first c = .ok (some k, k'))
    (hname : readString k = .ok (key, d)) (hcolon : readColon d = .ok p) :
    nextMember first c = .ok (some (key, p)) := by
  rw [nextMember, hkey]
  simp only [Except.ok_bind, hname, hcolon]
  rfl

/-- A member and those behind it. -/
theorem readMembers_cons_iff {value : Cursor → Except Fault (α × Cursor)}
    (next : nextMember first c = .ok (some (key, p))) {ms : List (String × α)} :
    readMembers value first c = .ok (ms, d) ↔ ∃ x e ns, value p = .ok (x, e)
      ∧ e.rest.length < c.rest.length ∧ readMembers value false e = .ok (ns, d) ∧ ms = (key, x) :: ns := by
  obtain ⟨k, k', d', hkey, hname, hcolon⟩ := nextMember_some next
  rw [readMembers, hkey]
  simp only [Except.ok_bind, hname, hcolon]
  constructor
  · intro h
    obtain ⟨⟨x, e⟩, hvalue, h⟩ := Except.bind_ok_iff.1 h
    simp only at h
    split at h
    · next short =>
      obtain ⟨⟨ns, e'⟩, hlater, h⟩ := Except.bind_ok_iff.1 h
      obtain ⟨rfl, rfl⟩ := Prod.mk.inj (Except.ok.inj h)
      exact ⟨x, e, ns, hvalue, short, hlater, rfl⟩
    · simp at h
  · rintro ⟨x, e, ns, hvalue, short, hlater, rfl⟩
    simp only [hvalue, Except.ok_bind, dif_pos short, hlater]
    rfl

theorem readMembers_close_iff {value : Cursor → Except Fault (α × Cursor)}
    (next : nextMember first c = .ok none) {ms : List (String × α)} :
    readMembers value first c = .ok (ms, d) ↔ ms = [] ∧ d = c.skipSpace := by
  rw [readMembers, nextMember_none next]
  simp only [Except.ok_bind, pure, Except.pure, Except.ok.injEq, Prod.mk.injEq]
  exact ⟨fun h => ⟨h.1.symm, h.2.symm⟩, fun h => ⟨h.1.symm, h.2.symm⟩⟩

/-- Members can be read only if keys can. -/
theorem exists_nextMember_of_readMembers {value : Cursor → Except Fault (α × Cursor)}
    {x : List (String × α) × Cursor} (h : readMembers value first c = .ok x) :
    ∃ next, nextMember first c = .ok next := by
  rw [readMembers] at h
  obtain ⟨⟨_ | k, k'⟩, hkey, h⟩ := Except.bind_ok_iff.1 h
  · exact ⟨_, nextMember_of_nextKey_none hkey⟩
  · obtain ⟨⟨name, d⟩, hname, h⟩ := Except.bind_ok_iff.1 h
    obtain ⟨p, hcolon, -⟩ := Except.bind_ok_iff.1 h
    exact ⟨_, nextMember_of_nextKey_some hkey hname hcolon⟩

variable {value : Field → Cursor → Except Fault (FieldValue × Cursor)} {seen : List Field}

/-- A field that has not been seen, and those behind it. -/
theorem readMemberFields_cons_iff {f : Field} (next : nextMember first c = .ok (some (f.text, p)))
    (apart : f ∉ seen) {es : List (Field × FieldValue)} :
    readMemberFields value seen first c = .ok (es, d) ↔ ∃ x e fs, value f p = .ok (x, e)
      ∧ e.rest.length < c.rest.length ∧ readMemberFields value (f :: seen) false e = .ok (fs, d)
      ∧ es = (f, x) :: fs := by
  obtain ⟨k, k', d', hkey, hname, hcolon⟩ := nextMember_some next
  have hword : wordOf? Field f.text = some f := wordOf?_spelling f
  have hseen : seen.contains f = false := by simpa using apart
  rw [readMemberFields, hkey]
  simp only [Except.ok_bind, hname, hword, hseen, hcolon, Bool.false_eq_true, if_false]
  constructor
  · intro h
    obtain ⟨⟨x, e⟩, hvalue, h⟩ := Except.bind_ok_iff.1 h
    simp only at h
    split at h
    · next short =>
      obtain ⟨⟨fs, e'⟩, hlater, h⟩ := Except.bind_ok_iff.1 h
      obtain ⟨rfl, rfl⟩ := Prod.mk.inj (Except.ok.inj h)
      exact ⟨x, e, fs, hvalue, short, hlater, rfl⟩
    · simp at h
  · rintro ⟨x, e, fs, hvalue, short, hlater, rfl⟩
    simp only [hvalue, Except.ok_bind, dif_pos short, hlater]
    rfl

theorem readMemberFields_close_iff (next : nextMember first c = .ok none)
    {es : List (Field × FieldValue)} :
    readMemberFields value seen first c = .ok (es, d) ↔ es = [] ∧ d = c.skipSpace := by
  rw [readMemberFields, nextMember_none next]
  simp only [Except.ok_bind, pure, Except.pure, Except.ok.injEq, Prod.mk.injEq]
  exact ⟨fun h => ⟨h.1.symm, h.2.symm⟩, fun h => ⟨h.1.symm, h.2.symm⟩⟩

/-- Fields can be read only if keys can. -/
theorem exists_nextMember_of_readMemberFields {x : List (Field × FieldValue) × Cursor}
    (h : readMemberFields value seen first c = .ok x) : ∃ next, nextMember first c = .ok next := by
  rw [readMemberFields] at h
  obtain ⟨⟨_ | k, k'⟩, hkey, h⟩ := Except.bind_ok_iff.1 h
  · exact ⟨_, nextMember_of_nextKey_none hkey⟩
  · obtain ⟨⟨name, d⟩, hname, h⟩ := Except.bind_ok_iff.1 h
    have hcolon : ∃ p, readColon d = .ok p := by
      simp only at h
      split at h
      · obtain ⟨p, hcolon, -⟩ := Except.bind_ok_iff.1 h
        exact ⟨p, hcolon⟩
      · split at h
        · simp at h
        · obtain ⟨p, hcolon, -⟩ := Except.bind_ok_iff.1 h
          exact ⟨p, hcolon⟩
    obtain ⟨p, hcolon⟩ := hcolon
    exact ⟨_, nextMember_of_nextKey_some hkey hname hcolon⟩

theorem exists_keyPlaces (next : nextMember first c = .ok (some (key, p))) :
    ∃ ms, keyPlaces first c = (key, p) :: ms := by
  rw [keyPlaces, next]
  simp only
  split
  · split <;> exact ⟨_, rfl⟩
  · exact ⟨_, rfl⟩

/-- The places of the members behind one. -/
theorem keyPlaces_cons (next : nextMember first c = .ok (some (key, p))) (skip : skipValue p = .ok d)
    (short : d.rest.length < c.rest.length) : keyPlaces first c = (key, p) :: keyPlaces false d := by
  rw [keyPlaces, next]
  simp only [skip, dif_pos short]

end

/-- The keys that are read are those that have a place. -/
theorem keys_readMembers {first : Bool} {c d : Cursor} {ms : List (String × Json)}
    (h : readMembers (readValue levels) first c = .ok (ms, d)) :
    ms.map Prod.fst = (keyPlaces first c).map Prod.fst := by
  obtain ⟨_ | ⟨key, p⟩, hnext⟩ := exists_nextMember_of_readMembers h
  · obtain ⟨rfl, -⟩ := (readMembers_close_iff hnext).1 h
    rw [keyPlaces, hnext]
    rfl
  · obtain ⟨x, e, ns, hvalue, short, hlater, rfl⟩ := (readMembers_cons_iff hnext).1 h
    rw [keyPlaces_cons hnext (skipValue_of_readValue hvalue) short, List.map_cons, List.map_cons,
      keys_readMembers hlater]
termination_by c.rest.length

/-- The first field is read as the first member, if the others are read as the other members. -/
theorem readMemberFields_member {f : Field} {seen : List Field} {first : Bool} {c p d : Cursor}
    (next : nextMember first c = .ok (some (f.text, p))) (unseen : f ∉ seen)
    (head : Agrees (readEntry levels f) (fieldOfJson f) levels p)
    (tail : ∀ {v e}, readValue levels p = .ok (v, e) → e.rest.length < c.rest.length → ∀ {es},
      readMemberFields (readEntry levels) (f :: seen) false e = .ok (es, d)
        ↔ ∃ ms, readMembers (readValue levels) false e = .ok (ms, d) ∧ fieldsOfMembers ms = .ok es)
    {es : List (Field × FieldValue)} :
    readMemberFields (readEntry levels) seen first c = .ok (es, d)
      ↔ ∃ ms, readMembers (readValue levels) first c = .ok (ms, d) ∧ fieldsOfMembers ms = .ok es := by
  simp only [readMemberFields_cons_iff next unseen, readMembers_cons_iff next]
  constructor
  · rintro ⟨x, e, fs, hx, short, hfs, rfl⟩
    obtain ⟨v, hv, hdecode⟩ := (head x e).1 hx
    obtain ⟨ns, hns, hdecodes⟩ := (tail hv short).1 hfs
    refine ⟨(f.text, v) :: ns, ⟨v, e, ns, hv, short, hns, rfl⟩, ?_⟩
    rw [fieldsOfMembers_known, hdecode, Except.ok_bind, hdecodes]
    rfl
  · rintro ⟨ms, ⟨v, e, ns, hv, short, hns, rfl⟩, hdecodes⟩
    rw [fieldsOfMembers_known] at hdecodes
    obtain ⟨x, hdecode, hdecodes⟩ := Except.bind_ok_iff.1 hdecodes
    obtain ⟨fs, hrest, hcons⟩ := Except.bind_ok_iff.1 hdecodes
    have hfs := (tail hv short).2 ⟨ns, hns, hrest⟩
    exact ⟨x, e, fs, (head x e).2 ⟨v, hv, hdecode⟩, short, hfs, (Except.ok.inj hcons).symm⟩

/-- The fields of an object are read as its members, if its keys are plain. -/
theorem readMemberFields_ok_iff {seen : List Field} {first : Bool} {c d : Cursor}
    (plain : PlainKeys ((keyPlaces first c).map Prod.fst))
    (apart : ∀ f ∈ seen, f.text ∉ (keyPlaces first c).map Prod.fst)
    (agrees : ∀ f p, (Field.text f, p) ∈ keyPlaces first c →
      Agrees (readEntry levels f) (fieldOfJson f) levels p) {es : List (Field × FieldValue)} :
    readMemberFields (readEntry levels) seen first c = .ok (es, d)
      ↔ ∃ ms, readMembers (readValue levels) first c = .ok (ms, d) ∧ fieldsOfMembers ms = .ok es := by
  cases hnext : nextMember first c with
  | error fault =>
    constructor
    · intro h
      obtain ⟨next, hok⟩ := exists_nextMember_of_readMemberFields h
      simp [hnext] at hok
    · rintro ⟨ms, h, -⟩
      obtain ⟨next, hok⟩ := exists_nextMember_of_readMembers h
      simp [hnext] at hok
  | ok next =>
    obtain _ | ⟨key, p⟩ := next
    · simp only [readMemberFields_close_iff hnext, readMembers_close_iff hnext]
      constructor
      · rintro ⟨rfl, rfl⟩
        exact ⟨[], ⟨rfl, rfl⟩, rfl⟩
      · rintro ⟨ms, ⟨rfl, rfl⟩, hdecode⟩
        exact ⟨(Except.ok.inj hdecode).symm, rfl⟩
    · obtain ⟨ps, hps⟩ := exists_keyPlaces hnext
      obtain ⟨f, rfl⟩ : ∃ f : Field, key = f.text := plain.known key (by simp [hps])
      have hunseen : f ∉ seen := fun hf => apart f hf (by simp [hps])
      refine readMemberFields_member hnext hunseen (agrees f p (hps ▸ List.mem_cons_self))
        fun {v e} hv short => ?_
      rw [keyPlaces_cons hnext (skipValue_of_readValue hv) short] at plain apart agrees
      obtain ⟨hfirst, hnodup⟩ := List.nodup_cons.1 plain.nodup
      refine readMemberFields_ok_iff ⟨?_, hnodup⟩ ?_ fun g q hq => ?_
      · exact fun key hkey => plain.known key (List.mem_cons_of_mem _ hkey)
      · intro g hg hmem
        rcases List.mem_cons.1 hg with rfl | hg
        · exact hfirst hmem
        · exact apart g hg (List.mem_cons_of_mem _ hmem)
      · exact agrees g q (List.mem_cons_of_mem _ hq)
termination_by c.rest.length

/-! ## Nodes -/

theorem ofJson_array_iff {vs : List Json} {t : Tree} :
    ofJson (.array vs) = .ok t
      ↔ ∃ es, fieldsOfItems Field.all vs = .ok es ∧ vs.length ≤ Field.all.length ∧ t = ofFields es := by
  rw [ofJson, Except.bind_ok_iff]
  constructor
  · rintro ⟨es, hes, h⟩
    split at h
    · simp at h
    · next hlength => exact ⟨es, hes, Nat.not_lt.1 hlength, (Except.ok.inj h).symm⟩
  · rintro ⟨es, hes, hlength, rfl⟩
    exact ⟨es, hes, by rw [if_neg (Nat.not_lt.2 hlength)]; rfl⟩

/-- What is read in place of a field is what its value stands for, if that is so of the elements. -/
theorem agrees_readEntry {f : Field}
    (inside : f = .elements → ∀ p ∈ listPlaces c, Agrees (readNode (levels - 1)) ofJson (levels - 1) p) :
    Agrees (readEntry levels f) (fieldOfJson f) levels c := by
  cases htype : f.type? with
  | some type =>
    unfold readEntry
    have hfield : fieldOfJson f = FieldValue.ofJson type := by
      funext v
      rw [fieldOfJson, htype]
    rw [hfield, htype]
    exact agrees_readField type
  | none =>
    obtain rfl : f = .elements := by cases f <;> simp_all [Field.type?]
    exact agrees_readElements (inside rfl)

/-- No scalar stands for a node. -/
theorem ofJson_scalar (s : Scalar) (t : Tree) : ofJson s.toJson ≠ .ok t := by
  cases s <;> simp [ofJson, Scalar.toJson]

/-- The elements of a node have their places among those of its fields. -/
theorem mem_elementPlaces {p q : Cursor} (hp : (Field.elements.text, p) ∈ fieldPlaces c)
    (hq : q ∈ listPlaces p) : q ∈ elementPlaces c :=
  List.mem_flatMap.2 ⟨_, List.mem_filter.2 ⟨hp, beq_self_eq_true _⟩, hq⟩

/-- A node is read as what its value stands for, if the keys of all nodes are plain. -/
theorem agrees_readNode {depth : Nat} (deep : levels ≤ depth)
    (plain : ∀ keys ∈ nodeKeys depth c, PlainKeys keys) : Agrees (readNode levels) ofJson levels c := by
  induction depth generalizing levels c with
  | zero =>
    obtain rfl := Nat.le_zero.1 deep
    intro t d
    constructor
    · intro h
      cases nodeRead_of_readNode h
    · rintro ⟨v, hv, ht⟩
      cases valueRead_of_readValue hv with
      | @scalar _ _ _ _ _ s => exact absurd ht (ofJson_scalar s t)
  | succ depth ih =>
    have hkeys : PlainKeys ((fieldPlaces c).map Prod.fst) := plain _ List.mem_cons_self
    have hentries {n : Nat} (hn : n ≤ depth) {f : Field} {p : Cursor}
        (hp : (f.text, p) ∈ fieldPlaces c) : Agrees (readEntry n f) (fieldOfJson f) n p := by
      refine agrees_readEntry fun hf q hq => ih ((Nat.sub_le n 1).trans hn) fun keys hmem => ?_
      subst hf
      exact plain keys (List.mem_cons_of_mem _ (List.mem_flatMap.2 ⟨q, mem_elementPlaces hp hq, hmem⟩))
    intro t d
    constructor
    · intro h
      cases nodeRead_of_readNode h with
      | @array n _ e _ rest es start inside close =>
        simp only [fieldPlaces, start] at hentries
        have hitems := fun m hm => hentries (Nat.le_of_succ_le_succ deep) (List.mem_map.2 ⟨m, hm, rfl⟩)
        obtain ⟨vs, e', hvs, close, hlength, hes⟩ :=
          (readItemFields_ok_iff hitems).1 ⟨e, inside, close⟩
        exact ⟨.array vs, (ValueRead.array start hvs close).readValue_eq,
          ofJson_array_iff.2 ⟨es, hes, hlength, rfl⟩⟩
      | @object n _ e _ rest es start inside close =>
        simp only [fieldPlaces, start] at hentries hkeys
        obtain ⟨ms, hms, hes⟩ := (readMemberFields_ok_iff hkeys (by simp)
          fun f p hp => hentries (Nat.le_of_succ_le_succ deep) hp).1 inside
        have hnodup : (ms.map Prod.fst).Nodup := keys_readMembers hms ▸ hkeys.nodup
        exact ⟨_, (ValueRead.object start hms close).readValue_eq, (ofJson_sortMembers hnodup).2
          (ofJson_object_iff.2 ⟨es, fieldsOfMembers_ok_iff.1 hes, rfl⟩)⟩
    · rintro ⟨v, hv, ht⟩
      cases valueRead_of_readValue hv with
      | @array n _ e _ rest vs start inside close =>
        simp only [fieldPlaces, start] at hentries
        have hitems := fun m hm => hentries (Nat.le_of_succ_le_succ deep) (List.mem_map.2 ⟨m, hm, rfl⟩)
        obtain ⟨es, hes, hlength, rfl⟩ := ofJson_array_iff.1 ht
        obtain ⟨e', hfields, close⟩ :=
          (readItemFields_ok_iff hitems).2 ⟨vs, e, inside, close, hlength, hes⟩
        exact (NodeRead.array start hfields close).readNode_eq
      | @object n _ e _ rest ms start inside close =>
        simp only [fieldPlaces, start] at hentries hkeys
        have hnodup : (ms.map Prod.fst).Nodup := keys_readMembers inside ▸ hkeys.nodup
        obtain ⟨es, hes, rfl⟩ := ofJson_object_iff.1 ((ofJson_sortMembers hnodup).1 ht)
        have hfields : readMemberFields (readEntry n) [] true _ = _ :=
          (readMemberFields_ok_iff hkeys (by simp)
            fun f p hp => hentries (Nat.le_of_succ_le_succ deep) hp).2
            ⟨ms, inside, fieldsOfMembers_ok_iff.2 hes⟩
        exact (NodeRead.object start hfields close).readNode_eq
      | @scalar _ _ _ _ _ s => exact absurd ht (ofJson_scalar s t)

/-- **Both ways to decode a text agree**, where the keys of each node are those of fields, and none
comes twice: they take the same texts, and give the same trees. -/
theorem ofText_iff_ofJson {text : String}
    (plain : ∀ keys ∈ nodeKeys maxNesting (.ofText text), PlainKeys keys) {t : Tree} :
    ofText text = .ok t ↔ ∃ v, read text = .ok v ∧ ofJson v = .ok t := by
  have hagrees := agrees_readNode (Nat.le_refl maxNesting) plain
  rw [ofText, Except.mapError_ok_iff]
  constructor
  · intro h
    obtain ⟨⟨u, d⟩, hnode, h⟩ := Except.bind_ok_iff.1 h
    obtain ⟨⟨⟩, hend, h⟩ := Except.bind_ok_iff.1 h
    obtain rfl := Except.ok.inj h
    obtain ⟨v, hv, ht⟩ := (hagrees u d).1 hnode
    refine ⟨v, ?_, ht⟩
    rw [Json.read, hv]
    simp only [Except.ok_bind, hend]
    rfl
  · rintro ⟨v, h, ht⟩
    obtain ⟨⟨w, d⟩, hv, h⟩ := Except.bind_ok_iff.1 h
    obtain ⟨⟨⟩, hend, h⟩ := Except.bind_ok_iff.1 h
    obtain rfl := Except.ok.inj h
    rw [(hagrees t d).2 ⟨w, hv, ht⟩]
    simp only [Except.ok_bind, hend]
    rfl

/-! ## A text of both forms of nodes -/

/-- A group by name in no order, with a leaf in order, the first of whose fields are `null`, and one by name
whose value repeats a key that nobody asks for. -/
def mixedText : String :=
  "\x7b\"elements\": [[null, null, [], \"a\", \"SOURCE\", null, \"k\"],
    \x7b\"value\": \x7b\"x\": 1, \"x\": 2\x7d, \"name\": \"b\"\x7d], \"type\": \"EXPRESSION\"\x7d"

/-- The tree that it stands for. -/
def mixedTree : Tree :=
  ⟨{ kind := some (.known .expression) },
    [⟨{ name := some "a", entity := some (.known .source), key := some "k" }, []⟩,
      ⟨{ name := some "b", value := some (.object [("x", .number (.whole 2 (by decide)))]) }, []⟩]⟩

theorem plainKeys_fields {fs : List Field} (nodup : fs.Nodup) : PlainKeys (fs.map Field.text) where
  known := by
    intro key hkey
    obtain ⟨f, -, rfl⟩ := List.mem_map.1 hkey
    exact ⟨f, rfl⟩
  nodup := List.pairwise_map.2 (nodup.imp fun hne heq => hne (Field.text_inj heq))

/-- Both ways give the tree of the text. -/
theorem ofText_iff_ofJson_mixed :
    (∀ keys ∈ nodeKeys maxNesting (.ofText mixedText), PlainKeys keys)
      ∧ ofText mixedText = .ok mixedTree
      ∧ ∀ t, ofText mixedText = .ok t ↔ ∃ v, read mixedText = .ok v ∧ ofJson v = .ok t := by
  have hkeys : nodeKeys maxNesting (.ofText mixedText)
      = [[.elements, .kind], [.kind, .connective, .elements, .name, .entity, .operator, .key],
        [.value, .name]].map (List.map Field.text) := by decide +kernel
  have hplain : ∀ keys ∈ nodeKeys maxNesting (.ofText mixedText), PlainKeys keys := by
    rw [hkeys]
    intro keys hmem
    obtain ⟨fs, hfs, rfl⟩ := List.mem_map.1 hmem
    apply plainKeys_fields
    revert fs
    decide
  have htext : ofText mixedText = .ok mixedTree := by decide +kernel
  exact ⟨hplain, htext, fun t => ofText_iff_ofJson hplain⟩

end Tree

end TagQuery
