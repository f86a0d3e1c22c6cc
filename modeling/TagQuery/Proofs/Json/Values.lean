import Mathlib.Data.String.Basic
import TagQuery.Proofs.Json.Brackets

/-!
# Values that are read back

`Readable levels v` is what a reader can give that may enter `levels` arrays and objects: each object lists
its members by key, no key comes twice, and brackets are nested no deeper.  Just these values are read back
from what they print as, in any layout:

    readValue levels c = .ok (v, d) → Readable levels v                     (readable_of_readValue)
    Readable levels v → v.NumbersReadBack →
      Takes (readValue levels) (v.chars layout level) v                            (Readable.takes)
    v.NumbersReadBack → (read (v.text layout) = .ok v ↔ Readable maxNesting v)      (read_text_iff)
-/

namespace TagQuery.Json

open Text

/-! ## Members by key -/

/-- The members are listed by key, and no key comes twice. -/
def Sorted (ms : List (String × Json)) : Prop :=
  ms.Pairwise fun m n => m.1 < n.1

theorem mem_insertMember {key : String} {v : Json} {ms : List (String × Json)} {m : String × Json}
    (h : m ∈ insertMember key v ms) : m = (key, v) ∨ m ∈ ms := by
  induction ms with
  | nil => exact .inl (by simpa [insertMember] using h)
  | cons n ms ih =>
    obtain ⟨k, w⟩ := n
    unfold insertMember at h
    split at h
    · exact List.mem_cons.1 h
    · split at h
      · rcases List.mem_cons.1 h with rfl | h
        · exact .inl rfl
        · exact .inr (List.mem_cons_of_mem _ h)
      · rcases List.mem_cons.1 h with rfl | h
        · exact .inr List.mem_cons_self
        · exact (ih h).imp_right (List.mem_cons_of_mem _)

theorem sorted_insertMember {key : String} {v : Json} {ms : List (String × Json)} (h : Sorted ms) :
    Sorted (insertMember key v ms) := by
  induction ms with
  | nil => exact List.pairwise_singleton _ _
  | cons n ms ih =>
    obtain ⟨k, w⟩ := n
    obtain ⟨hhead, htail⟩ := List.pairwise_cons.1 h
    unfold insertMember
    split
    · next hlt =>
      refine List.pairwise_cons.2 ⟨fun m hm => ?_, h⟩
      rcases List.mem_cons.1 hm with rfl | hm
      · exact hlt
      · exact lt_trans hlt (hhead m hm)
    · next hnot =>
      split
      · next heq => exact List.pairwise_cons.2 ⟨fun m hm => heq ▸ hhead m hm, htail⟩
      · next hne =>
        have hgt : k < key := lt_of_le_of_ne (not_lt.1 hnot) (Ne.symm hne)
        refine List.pairwise_cons.2 ⟨fun m hm => ?_, ih htail⟩
        rcases mem_insertMember hm with rfl | hm
        · exact hgt
        · exact hhead m hm

/-- A key behind all others is put at the end. -/
theorem insertMember_last {key : String} {v : Json} {ms : List (String × Json)}
    (h : ∀ m ∈ ms, m.1 < key) : insertMember key v ms = ms ++ [(key, v)] := by
  induction ms with
  | nil => rfl
  | cons n ms ih =>
    have hlt : n.1 < key := h n List.mem_cons_self
    rw [insertMember, if_neg (not_lt_of_gt hlt), if_neg (ne_of_gt hlt),
      ih fun m hm => h m (List.mem_cons_of_mem _ hm)]
    rfl

/-- What is sorted stays as it is; the inner statement goes on from members that have been listed. -/
theorem sortMembers_sorted {ms : List (String × Json)} (h : Sorted ms) : sortMembers ms = ms := by
  have step : ∀ (ms listed : List (String × Json)), Sorted (listed ++ ms) →
      ms.foldl (fun sorted m => insertMember m.1 m.2 sorted) listed = listed ++ ms := by
    intro ms
    induction ms with
    | nil => simp
    | cons m ms ih =>
      intro listed hsorted
      have hlast : insertMember m.1 m.2 listed = listed ++ [m] :=
        insertMember_last fun n hn => (List.pairwise_append.1 hsorted).2.2 n hn m List.mem_cons_self
      rw [List.foldl_cons, hlast, ih _ (by simpa using hsorted), List.append_assoc]
      rfl
  exact step ms [] h

theorem sortMembers_spec (ms : List (String × Json)) :
    Sorted (sortMembers ms) ∧ ∀ m ∈ sortMembers ms, m ∈ ms := by
  have step : ∀ (ms listed : List (String × Json)), Sorted listed →
      Sorted (ms.foldl (fun sorted m => insertMember m.1 m.2 sorted) listed)
        ∧ ∀ m ∈ ms.foldl (fun sorted m => insertMember m.1 m.2 sorted) listed,
            m ∈ listed ∨ m ∈ ms := by
    intro ms
    induction ms with
    | nil =>
      intro listed h
      exact ⟨h, fun m hm => .inl hm⟩
    | cons n ms ih =>
      intro listed h
      obtain ⟨hsorted, hmem⟩ := ih _ (sorted_insertMember h)
      refine ⟨hsorted, fun m hm => ?_⟩
      rcases hmem m hm with hm | hm
      · rcases mem_insertMember hm with rfl | hm
        · exact .inr List.mem_cons_self
        · exact .inl hm
      · exact .inr (List.mem_cons_of_mem _ hm)
  obtain ⟨hsorted, hmem⟩ := step ms [] List.Pairwise.nil
  exact ⟨hsorted, fun m hm => (hmem m hm).resolve_left (by simp)⟩

/-! ## Readable values -/

/-- What a reader can give that may enter `levels` arrays and objects. -/
inductive Readable : Nat → Json → Prop where
  | scalar {levels : Nat} (s : Scalar) : Readable levels s.toJson
  | array {levels : Nat} {items : List Json} (inside : ∀ v ∈ items, Readable levels v) :
      Readable (levels + 1) (.array items)
  | object {levels : Nat} {members : List (String × Json)} (sorted : Sorted members)
      (inside : ∀ m ∈ members, Readable levels m.2) : Readable (levels + 1) (.object members)

/-! ## How a value is read -/

/-- The three ways to read a value. -/
inductive ValueRead : Nat → Cursor → Json → Cursor → Prop where
  | array {n : Nat} {c e d : Cursor} {rest : List Char} {items : List Json}
      (start : c.skipSpace.rest = '[' :: rest)
      (inside : readItems (readValue n) true ⟨c.skipSpace.place.after '[', rest⟩ = .ok (items, e))
      (close : endArray e = .ok d) : ValueRead (n + 1) c (.array items) d
  | object {n : Nat} {c e d : Cursor} {rest : List Char} {members : List (String × Json)}
      (start : c.skipSpace.rest = '\x7b' :: rest)
      (inside : readMembers (readValue n) true ⟨c.skipSpace.place.after '\x7b', rest⟩
        = .ok (members, e))
      (close : endObject e = .ok d) : ValueRead (n + 1) c (.object (sortMembers members)) d
  | scalar {n : Nat} {c d : Cursor} {ch : Char} {rest : List Char} {s : Scalar}
      (start : c.skipSpace.rest = ch :: rest) (noArray : ch ≠ '[') (noObject : ch ≠ '\x7b')
      (own : readScalar ch c.skipSpace ⟨c.skipSpace.place.after ch, rest⟩ = .ok (s, d)) :
      ValueRead n c s.toJson d

theorem valueRead_of_readValue {levels : Nat} {c d : Cursor} {v : Json}
    (h : readValue levels c = .ok (v, d)) : ValueRead levels c v d := by
  cases levels with
  | zero =>
    rw [readValue] at h
    simp only at h
    split at h
    · simp at h
    · next start =>
      split at h
      · simp at h
      · next noArray =>
        split at h
        · simp at h
        · next noObject =>
          obtain ⟨⟨s, e⟩, own, h⟩ := Except.bind_ok_iff.1 h
          obtain ⟨rfl, rfl⟩ := Prod.mk.inj (Except.ok.inj h)
          exact .scalar start noArray noObject own
  | succ n =>
    rw [readValue] at h
    simp only at h
    split at h
    · simp at h
    · next start =>
      split at h
      · next hch =>
        subst hch
        obtain ⟨⟨items, e⟩, inside, h⟩ := Except.bind_ok_iff.1 h
        obtain ⟨e', close, h⟩ := Except.bind_ok_iff.1 h
        obtain ⟨rfl, rfl⟩ := Prod.mk.inj (Except.ok.inj h)
        exact .array start inside close
      · next noArray =>
        split at h
        · next hch =>
          subst hch
          obtain ⟨⟨members, e⟩, inside, h⟩ := Except.bind_ok_iff.1 h
          obtain ⟨e', close, h⟩ := Except.bind_ok_iff.1 h
          obtain ⟨rfl, rfl⟩ := Prod.mk.inj (Except.ok.inj h)
          exact .object start inside close
        · next noObject =>
          obtain ⟨⟨s, e⟩, own, h⟩ := Except.bind_ok_iff.1 h
          obtain ⟨rfl, rfl⟩ := Prod.mk.inj (Except.ok.inj h)
          exact .scalar start noArray noObject own

theorem ValueRead.readValue_eq {levels : Nat} {c d : Cursor} {v : Json}
    (h : ValueRead levels c v d) : readValue levels c = .ok (v, d) := by
  cases h with
  | array start inside close =>
    rw [readValue]
    simp only [start, if_true, inside, Except.ok_bind, close]
    rfl
  | object start inside close =>
    rw [readValue]
    simp only [start, Char.reduceEq, if_true, if_false, inside, Except.ok_bind, close]
    rfl
  | scalar start noArray noObject own =>
    cases levels <;> rw [readValue] <;> simp only [start, noArray, noObject, if_false, own] <;> rfl

/-- What is read is readable. -/
theorem readable_of_readValue {levels : Nat} {c d : Cursor} {v : Json}
    (h : readValue levels c = .ok (v, d)) : Readable levels v := by
  induction levels generalizing c d v with
  | zero =>
    cases valueRead_of_readValue h with
    | scalar => exact .scalar _
  | succ levels ih =>
    cases valueRead_of_readValue h with
    | array start inside close =>
      refine .array fun v hv => ?_
      obtain ⟨c', d', hread⟩ := mem_readItems inside v hv
      exact ih hread
    | @object _ _ _ _ _ members start inside close =>
      obtain ⟨hsorted, hmem⟩ := sortMembers_spec members
      refine .object hsorted fun m hm => ?_
      obtain ⟨c', d', hread⟩ := mem_readMembers inside m (hmem m hm)
      exact ih hread
    | scalar => exact .scalar _

/-- `null` is read from its own first letter only. -/
theorem head_of_readValue_null {levels : Nat} {c d : Cursor}
    (h : readValue levels c = .ok (.null, d)) : c.skipSpace.rest.head? = some 'n' := by
  generalize hv : Json.null = v at h
  cases valueRead_of_readValue h with
  | array => simp at hv
  | object => simp at hv
  | @scalar _ _ _ _ _ s start _ _ own =>
    cases s with
    | null =>
      rw [start, eq_of_readScalar_null own]
      rfl
    | _ => simp [Scalar.toJson] at hv

/-- What is read is read with more levels too. -/
theorem readValue_refines (levels : Nat) : Refines (readValue levels) (readValue (levels + 1)) := by
  induction levels with
  | zero =>
    rintro c ⟨v, d⟩ h
    cases valueRead_of_readValue h with
    | scalar start noArray noObject own => exact (ValueRead.scalar start noArray noObject own).readValue_eq
  | succ levels ih =>
    rintro c ⟨v, d⟩ h
    apply ValueRead.readValue_eq
    cases valueRead_of_readValue h with
    | array start inside close =>
      exact .array start (readItems_refines ih true _ _ inside) close
    | object start inside close =>
      exact .object start (readMembers_refines ih true _ _ inside) close
    | scalar start noArray noObject own => exact .scalar start noArray noObject own

/-! ## Printed values -/

variable {p : Place} {rest : List Char} {layout : Layout} {level : Nat}

theorem itemChars_eq (xs : List Json) :
    itemChars layout level xs = itemsText (chars layout level) (layout.lineBreak level) xs := by
  induction xs with
  | nil => rfl
  | cons x xs ih => simp [itemChars, itemsText, ih]

theorem memberChars_eq (ms : List (String × Json)) :
    memberChars layout level ms
      = membersText (chars layout level) (layout.lineBreak level) layout.gap ms := by
  induction ms with
  | nil => rfl
  | cons m ms ih =>
    simp [memberChars, membersText, memberText, stringChars, Layout.colon_eq, ih]

/-- The text of a value starts with a scalar or a bracket that opens. -/
theorem startsValue_chars (layout : Layout) (level : Nat) (v : Json) :
    StartsValue (v.chars layout level) := by
  have scalar : ∀ s : Scalar, StartsValue (s.toJson.chars layout level) := by
    intro s
    obtain ⟨c, cs, hchars, hstart⟩ := s.head_chars
    obtain ⟨hspace, -, hclose, -⟩ := classes_of_startsScalar hstart
    rw [Scalar.chars_toJson, hchars]
    exact ⟨c, rfl, hspace, hclose⟩
  cases v with
  | null => exact scalar .null
  | boolean b => exact scalar (.boolean b)
  | number n => exact scalar (.number n)
  | string s => exact scalar (.string s)
  | array items => cases items <;> exact ⟨'[', rfl, rfl, by decide⟩
  | object members => cases members <;> exact ⟨'\x7b', rfl, rfl, by decide⟩

/-- Only `null` starts with its letter. -/
theorem eq_null_of_head {v : Json} (h : (v.chars layout level).head? = some 'n') : v = .null := by
  cases v with
  | null => rfl
  | boolean b => cases b <;> simp [chars] at h
  | number n =>
    have hchars : (Json.number n).chars layout level = n.chars := rfl
    rw [hchars] at h
    rcases head_chars n with ⟨cs, hn⟩ | ⟨c, cs, hn, hc⟩
    · simp [hn] at h
    · obtain rfl : c = 'n' := by simpa [hn] using h
      exact absurd hc (by decide)
  | string s => simp [chars, stringChars] at h
  | array items => cases items <;> simp [chars] at h
  | object members =>
    cases members with
    | nil => simp [chars] at h
    | cons m ms => simp [chars] at h

theorem takes_scalar (levels : Nat) {s : Scalar} (back : s.toJson.NumbersReadBack) :
    Takes (readValue levels) s.chars s.toJson := by
  intro p sp rest hsp stop
  obtain ⟨c, cs, hchars, hstart, hread⟩ := readScalar_chars back
  obtain ⟨hspace, harray, -, hobject⟩ := classes_of_startsScalar hstart
  rw [hchars]
  unfold readValue
  simp only [List.cons_append, Cursor.skipSpace_append hsp (stopsAt_cons hspace), harray, hobject,
    if_false, hread stop]
  rfl

theorem takes_array {levels : Nat} {get : Json → Json} {items : List Json}
    (htakes : ∀ v ∈ items, Takes (readValue levels) (v.chars layout (level + 1)) (get v)) :
    Takes (readValue (levels + 1)) ((Json.array items).chars layout level) (.array (items.map get)) := by
  intro p sp rest hsp stop
  have hbracket {tail : List Char} : StopsAt Cursor.isSpace ('[' :: tail) := stopsAt_cons rfl
  have hbreak := spaces_lineBreak layout (level + 1)
  have hclose := spaces_lineBreak layout level
  cases items with
  | nil =>
    rw [chars, readValue]
    simp only [List.cons_append, List.nil_append, Cursor.skipSpace_append hsp hbracket, if_true,
      readItems_nil, Except.ok_bind, endArray_bracket]
    rfl
  | cons x xs =>
    have htext : (Json.array (x :: xs)).chars layout level ++ rest
        = '[' :: (layout.lineBreak (level + 1) ++ (x.chars layout (level + 1)
          ++ (itemsText (chars layout (level + 1)) (layout.lineBreak (level + 1)) xs
            ++ (layout.lineBreak level ++ ']' :: rest)))) := by
      simp [chars, itemChars_eq]
    rw [htext, readValue]
    simp only [Cursor.skipSpace_append hsp hbracket, if_true,
      readItems_first hbreak hclose htakes fun v _ => startsValue_chars layout _ v, Except.ok_bind,
      endArray_bracket]
    simp [chars, itemChars_eq, pure, Except.pure]

theorem takes_object {levels : Nat} {get : Json → Json} {members : List (String × Json)}
    (htakes : ∀ m ∈ members, Takes (readValue levels) (m.2.chars layout (level + 1)) (get m.2)) :
    Takes (readValue (levels + 1)) ((Json.object members).chars layout level)
      (.object (sortMembers (members.map fun m => (m.1, get m.2)))) := by
  intro p sp rest hsp stop
  have hbrace {tail : List Char} : StopsAt Cursor.isSpace ('\x7b' :: tail) := stopsAt_cons rfl
  have hbreak := spaces_lineBreak layout (level + 1)
  have hclose := spaces_lineBreak layout level
  cases members with
  | nil =>
    rw [chars, readValue]
    simp only [List.cons_append, List.nil_append, Cursor.skipSpace_append hsp hbrace, if_true,
      if_false, Char.reduceEq, readMembers_nil, Except.ok_bind, endObject_brace]
    rfl
  | cons m ms =>
    obtain ⟨key, v⟩ := m
    have htext : (Json.object ((key, v) :: ms)).chars layout level ++ rest
        = '\x7b' :: (layout.lineBreak (level + 1) ++ '"' :: (memberText (chars layout (level + 1))
          layout.gap key v ++ (membersText (chars layout (level + 1))
            (layout.lineBreak (level + 1)) layout.gap ms
            ++ (layout.lineBreak level ++ '\x7d' :: rest)))) := by
      simp [chars, memberChars_eq, stringChars, memberText, Layout.colon_eq]
    rw [htext, readValue]
    simp only [Cursor.skipSpace_append hsp hbrace, if_true, if_false, Char.reduceEq,
      readMembers_first hbreak (spaces_gap layout) hclose htakes, Except.ok_bind,
      endObject_brace]
    simp [chars, memberChars_eq, stringChars, memberText, Layout.colon_eq, pure, Except.pure]

/-- **What is readable is read back**, in any layout, if its numbers are. -/
theorem Readable.takes {levels : Nat} {v : Json} (h : Readable levels v) (back : v.NumbersReadBack)
    (layout : Layout) (level : Nat) : Takes (readValue levels) (v.chars layout level) v := by
  induction h generalizing level with
  | scalar s =>
    rw [s.chars_toJson]
    exact takes_scalar _ back
  | @array levels items inside ih =>
    have hitems : ∀ v ∈ items, Takes (readValue levels) (v.chars layout (level + 1)) (id v) :=
      fun v hv => ih v hv (NumbersReadBack.array_iff.1 back v hv) (level + 1)
    simpa using takes_array hitems
  | @object levels members sorted inside ih =>
    have hmembers : ∀ m ∈ members,
        Takes (readValue levels) (m.2.chars layout (level + 1)) (id m.2) :=
      fun m hm => ih m hm (NumbersReadBack.object_iff.1 back m hm) (level + 1)
    simpa [sortMembers_sorted sorted] using takes_object hmembers

/-- Readable values are read back from their text, white space behind it or not. -/
theorem read_text {v : Json} (h : Readable maxNesting v) (back : v.NumbersReadBack) (layout : Layout)
    {sp : List Char} (hsp : Spaces sp) : read (v.text layout ++ String.ofList sp) = .ok v := by
  have htext : v.text layout ++ String.ofList sp = String.ofList (v.chars layout 0 ++ sp) := by
    rw [text, String.ofList_append]
  rw [htext]
  exact (h.takes back layout 0).whole hsp

/-- **Which values are read back from their text**: those that a reader can give at all. -/
theorem read_text_iff {v : Json} (back : v.NumbersReadBack) {layout : Layout} :
    read (v.text layout) = .ok v ↔ Readable maxNesting v := by
  constructor
  · intro h
    obtain ⟨⟨w, c⟩, hread, h⟩ := Except.bind_ok_iff.1 h
    obtain ⟨-, -, h⟩ := Except.bind_ok_iff.1 h
    obtain rfl := Except.ok.inj h
    exact readable_of_readValue hread
  · intro h
    have hread := read_text h back layout spaces_nil
    simpa using hread

end TagQuery.Json
