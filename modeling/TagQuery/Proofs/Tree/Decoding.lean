import Mathlib.Data.List.Forall2
import TagQuery.Proofs.Except
import TagQuery.Proofs.Json.Order
import TagQuery.Proofs.Tree.Fields

/-!
# Trees from finished values

The members of an object stand for fields, one for each key that is a field's (`MembersDecode`); which
ones do not depend on the order of the members, so that an object and its members by key stand for one
node:

    fieldsOfMembers ms = .ok es ↔ MembersDecode ms es                        (fieldsOfMembers_ok_iff)
    ms.Perm ns → MembersDecode ms es → ∃ fs, es.Perm fs ∧ MembersDecode ns fs    (MembersDecode.perm)
    (ms.map Prod.fst).Nodup →
      (ofJson (.object (sortMembers ms)) = .ok t ↔ ofJson (.object ms) = .ok t)    (ofJson_sortMembers)
-/

namespace TagQuery

open TagQuery.Json

theorem Field.text_inj {f g : Field} (h : f.text = g.text) : f = g :=
  Vocabulary.spelling_inj f (Vocabulary.mem_all f) g (Vocabulary.mem_all g) h

namespace Tree

/-- The value of a field that a value stands for. -/
def fieldOfJson (f : Field) (v : Json) : Except DecodeError FieldValue :=
  match f.type? with
  | some type => FieldValue.ofJson type v
  | none => (ofElements v).map .elements

/-! ## Members -/

/-- The members stand for the fields, those with another key for none. -/
inductive MembersDecode : List (String × Json) → List (Field × FieldValue) → Prop where
  | nil : MembersDecode [] []
  | unknown {key : String} {v : Json} {ms : List (String × Json)} {es : List (Field × FieldValue)}
      (key_eq : wordOf? Field key = none) (later : MembersDecode ms es) :
      MembersDecode ((key, v) :: ms) es
  | known {f : Field} {v : Json} {x : FieldValue} {ms : List (String × Json)}
      {es : List (Field × FieldValue)} (value : fieldOfJson f v = .ok x) (later : MembersDecode ms es) :
      MembersDecode ((f.text, v) :: ms) ((f, x) :: es)

theorem fieldsOfMembers_unknown {key : String} (h : wordOf? Field key = none) (v : Json)
    (ms : List (String × Json)) : fieldsOfMembers ((key, v) :: ms) = fieldsOfMembers ms := by
  rw [fieldsOfMembers, h]

theorem fieldsOfMembers_known (f : Field) (v : Json) (ms : List (String × Json)) :
    fieldsOfMembers ((f.text, v) :: ms) = (do
      let x ← fieldOfJson f v
      return (f, x) :: (← fieldsOfMembers ms)) := by
  have hword : wordOf? Field f.text = some f := wordOf?_spelling f
  simp only [fieldsOfMembers, hword, fieldOfJson]
  cases f.type? <;> rfl

theorem fieldsOfMembers_ok_iff {ms : List (String × Json)} {es : List (Field × FieldValue)} :
    fieldsOfMembers ms = .ok es ↔ MembersDecode ms es := by
  constructor
  · intro h
    induction ms generalizing es with
    | nil =>
      obtain rfl := Except.ok.inj h
      exact .nil
    | cons m ms ih =>
      obtain ⟨key, v⟩ := m
      cases hword : wordOf? Field key with
      | none =>
        rw [fieldsOfMembers_unknown hword] at h
        exact .unknown hword (ih h)
      | some f =>
        obtain rfl : f.text = key := spelling_of_wordOf? hword
        rw [fieldsOfMembers_known] at h
        obtain ⟨x, hvalue, h⟩ := Except.bind_ok_iff.1 h
        obtain ⟨fs, hlater, h⟩ := Except.bind_ok_iff.1 h
        obtain rfl := Except.ok.inj h
        exact .known hvalue (ih hlater)
  · intro h
    induction h with
    | nil => rfl
    | unknown key_eq later ih => rw [fieldsOfMembers_unknown key_eq, ih]
    | known value later ih => rw [fieldsOfMembers_known, value, Except.ok_bind, ih, Except.ok_bind]; rfl

namespace MembersDecode

variable {ms ns : List (String × Json)} {es : List (Field × FieldValue)}

/-- In another order the members stand for the same fields. -/
theorem perm (hperm : ms.Perm ns) (h : MembersDecode ms es) :
    ∃ fs, es.Perm fs ∧ MembersDecode ns fs := by
  induction hperm generalizing es with
  | nil => exact ⟨es, .refl es, h⟩
  | cons m _ ih =>
    cases h with
    | unknown key_eq later =>
      obtain ⟨fs, hfs, hns⟩ := ih later
      exact ⟨fs, hfs, .unknown key_eq hns⟩
    | known value later =>
      obtain ⟨fs, hfs, hns⟩ := ih later
      exact ⟨_, hfs.cons _, .known value hns⟩
  | swap m n ms =>
    cases h with
    | unknown hn later =>
      cases later with
      | unknown hm later => exact ⟨_, .refl _, .unknown hm (.unknown hn later)⟩
      | known value later => exact ⟨_, .refl _, .known value (.unknown hn later)⟩
    | known hn later =>
      cases later with
      | unknown hm later => exact ⟨_, .refl _, .unknown hm (.known hn later)⟩
      | known value later => exact ⟨_, .swap _ _ _, .known value (.known hn later)⟩
  | trans _ _ ih₁ ih₂ =>
    obtain ⟨fs, hfs, hmid⟩ := ih₁ h
    obtain ⟨gs, hgs, hns⟩ := ih₂ hmid
    exact ⟨gs, hfs.trans hgs, hns⟩

/-- Each field has been decoded from a member with its key. -/
theorem exists_member (h : MembersDecode ms es) {f : Field} {x : FieldValue} (hx : (f, x) ∈ es) :
    ∃ v, (f.text, v) ∈ ms ∧ fieldOfJson f v = .ok x := by
  induction h with
  | nil => simp at hx
  | unknown key_eq later ih =>
    obtain ⟨v, hv, hvalue⟩ := ih hx
    exact ⟨v, List.mem_cons_of_mem _ hv, hvalue⟩
  | known value later ih =>
    rcases List.mem_cons.1 hx with heq | hx
    · obtain ⟨rfl, rfl⟩ := Prod.mk.inj heq
      exact ⟨_, List.mem_cons_self, value⟩
    · obtain ⟨v, hv, hvalue⟩ := ih hx
      exact ⟨v, List.mem_cons_of_mem _ hv, hvalue⟩

/-- Each member with the key of a field has been decoded. -/
theorem exists_field (h : MembersDecode ms es) {f : Field} {v : Json} (hv : (f.text, v) ∈ ms) :
    ∃ x, (f, x) ∈ es ∧ fieldOfJson f v = .ok x := by
  induction h with
  | nil => simp at hv
  | unknown key_eq later ih =>
    rcases List.mem_cons.1 hv with heq | hv
    · have hword : wordOf? Field f.text = some f := wordOf?_spelling f
      rw [(Prod.mk.inj heq).1, key_eq] at hword
      simp at hword
    · exact ih hv
  | known value later ih =>
    rcases List.mem_cons.1 hv with heq | hv
    · obtain ⟨htext, rfl⟩ := Prod.mk.inj heq
      obtain rfl := Field.text_inj htext
      exact ⟨_, List.mem_cons_self, value⟩
    · obtain ⟨x, hx, hvalue⟩ := ih hv
      exact ⟨x, List.mem_cons_of_mem _ hx, hvalue⟩

/-- Where no key comes twice, no field does. -/
theorem nodup (h : MembersDecode ms es) (nodup : (ms.map Prod.fst).Nodup) :
    (es.map Prod.fst).Nodup := by
  have hsub : ((es.map Prod.fst).map Field.text).Sublist (ms.map Prod.fst) := by
    induction h with
    | nil => exact List.Sublist.refl _
    | unknown key_eq later ih => exact (ih (List.nodup_cons.1 nodup).2).cons _
    | known value later ih => exact (ih (List.nodup_cons.1 nodup).2).cons_cons _
  exact List.Pairwise.of_map Field.text (fun f g hne heq => hne (congrArg _ heq)) (hsub.nodup nodup)

end MembersDecode

/-! ## Nodes -/

theorem ofJson_object_iff {ms : List (String × Json)} {t : Tree} :
    ofJson (.object ms) = .ok t ↔ ∃ es, MembersDecode ms es ∧ t = ofFields es := by
  rw [ofJson, Except.bind_ok_iff]
  constructor
  · rintro ⟨es, hes, ht⟩
    exact ⟨es, fieldsOfMembers_ok_iff.1 hes, (Except.ok.inj ht).symm⟩
  · rintro ⟨es, hes, rfl⟩
    exact ⟨es, fieldsOfMembers_ok_iff.2 hes, rfl⟩

theorem ofJson_of_perm {ms ns : List (String × Json)} (hperm : ms.Perm ns)
    (nodup : (ms.map Prod.fst).Nodup) {t : Tree} (h : ofJson (.object ms) = .ok t) :
    ofJson (.object ns) = .ok t := by
  obtain ⟨es, hes, rfl⟩ := ofJson_object_iff.1 h
  obtain ⟨fs, hfs, hns⟩ := hes.perm hperm
  exact ofJson_object_iff.2 ⟨fs, hns, ofFields_perm hfs (hes.nodup nodup)⟩

/-- **The order of members does not matter**, where no key comes twice. -/
theorem ofJson_sortMembers {ms : List (String × Json)} (nodup : (ms.map Prod.fst).Nodup) {t : Tree} :
    ofJson (.object (sortMembers ms)) = .ok t ↔ ofJson (.object ms) = .ok t := by
  have hperm := perm_sortMembers nodup
  have hsorted := ((hperm.map Prod.fst).nodup_iff).2 nodup
  exact ⟨ofJson_of_perm hperm hsorted, ofJson_of_perm hperm.symm nodup⟩

/-- The elements are what the items stand for, one by one. -/
theorem ofItems_ok_iff {vs : List Json} {ts : List Tree} :
    ofItems vs = .ok ts ↔ List.Forall₂ (fun v t => ofJson v = .ok t) vs ts := by
  induction vs generalizing ts with
  | nil =>
    rw [ofItems, List.forall₂_nil_left_iff, Except.ok.injEq, eq_comm]
  | cons v vs ih =>
    rw [ofItems, List.forall₂_cons_left_iff]
    simp only [Except.bind_ok_iff, ← ih]
    constructor
    · rintro ⟨t, ht, us, hus, h⟩
      exact ⟨t, us, ht, hus, (Except.ok.inj h).symm⟩
    · rintro ⟨t, us, ht, hus, rfl⟩
      exact ⟨t, ht, us, hus, rfl⟩

end Tree

end TagQuery
