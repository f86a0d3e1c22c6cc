import TagQuery.Proofs.Json.Values
import TagQuery.Proofs.Tree.Fields

/-!
# Nodes that are read back

`Tree.Readable levels t` is what a reader can give that may enter `levels` arrays and objects.  A node
takes one of them, and its list of elements another.  Each field of a node is read back from what it
prints as, if its numbers are, so the node is:

    t.get? f = some x → Takes (readEntry levels f) (x.toJson.chars layout level) x        (takes_entry)
    Readable levels t → Takes (readNode levels) (t.toJson.chars layout level) t           (Readable.takes)

`NodeRead` says what a reader of nodes does, with one rule for each of the two forms of a node.
-/

namespace TagQuery

open TagQuery.Json Text

variable {layout : Layout} {level levels : Nat}

/-! ## Values of fields -/

theorem takes_stringField (text : String) :
    Takes (readField .string levels) ((Json.string text).chars layout level) (.string text) := by
  intro p sp rest hsp stop
  have hquote {tail : List Char} : StopsAt Cursor.isSpace ('"' :: tail) := stopsAt_cons rfl
  have htext : (Json.string text).chars layout level ++ rest
      = '"' :: (text.toList.flatMap escapedChar ++ '"' :: rest) := by
    simp [chars, stringChars]
  rw [htext]
  simp only [readField, Cursor.skipSpace_append hsp hquote, Char.reduceEq, if_true, if_false,
    readString_printed, Except.ok_bind]
  simp [chars, stringChars, pure, Except.pure]

theorem takes_booleanField (b : Bool) :
    Takes (readField .boolean levels) ((Json.boolean b).chars layout level) (.boolean b) := by
  intro p sp rest hsp stop
  cases b with
  | true =>
    have hstart {tail : List Char} : StopsAt Cursor.isSpace ('t' :: tail) := stopsAt_cons rfl
    have htext : (Json.boolean true).chars layout level ++ rest = 't' :: ("rue".toList ++ rest) := rfl
    rw [htext]
    simp only [readField, Cursor.skipSpace_append hsp hstart, Char.reduceEq, if_true, if_false,
      readWord_append, Except.ok_bind]
    rfl
  | false =>
    have hstart {tail : List Char} : StopsAt Cursor.isSpace ('f' :: tail) := stopsAt_cons rfl
    have htext : (Json.boolean false).chars layout level ++ rest
        = 'f' :: ("alse".toList ++ rest) := rfl
    rw [htext]
    simp only [readField, Cursor.skipSpace_append hsp hstart, Char.reduceEq, if_true, if_false,
      readWord_append, Except.ok_bind]
    rfl

theorem takes_numberField {n : Number} (back : ReadsBack n) :
    Takes (readField .number levels) ((Json.number n).chars layout level) (.number n) := by
  intro p sp rest hsp stop
  have hchars : (Json.number n).chars layout level = n.chars := rfl
  rcases readNumber_chars back with ⟨cs, hn, hread⟩ | ⟨c, cs, hn, hc, hread⟩
  · have hstart {tail : List Char} : StopsAt Cursor.isSpace ('-' :: tail) := stopsAt_cons rfl
    rw [hchars, hn]
    simp only [readField, List.cons_append, Cursor.skipSpace_append hsp hstart, Char.reduceEq,
      if_true, if_false, true_or, hread stop, Except.ok_bind]
    rfl
  · have hclass := classes_of_startsScalar (c := c) (by simp [startsScalar, hc])
    have hnull : c ≠ 'n' := ne_of_isDigit hc (by decide)
    have hminus : c ≠ '-' := ne_of_isDigit hc (by decide)
    rw [hchars, hn]
    simp only [readField, List.cons_append, Cursor.skipSpace_append hsp (stopsAt_cons hclass.1),
      hnull, hminus, hc, if_true, if_false, or_true, hread stop, Except.ok_bind]
    rfl

theorem takes_anyField {v : Json} (h : Json.Readable levels v) (back : v.NumbersReadBack)
    (hnull : v ≠ .null) : Takes (readField .any levels) (v.chars layout level) (.any v) := by
  intro p sp rest hsp stop
  obtain ⟨c, cs, hchars, hspace, -⟩ := (startsValue_chars layout level v).eq_cons
  have hstart : c ≠ 'n' := by
    rintro rfl
    exact hnull (@eq_null_of_head layout level v (by rw [hchars]; rfl))
  have hvalue := h.takes back layout level (p.afterAll sp) [] rest spaces_nil stop
  rw [hchars] at hvalue ⊢
  simp only [readField, List.cons_append, Cursor.skipSpace_append hsp (stopsAt_cons hspace), hstart,
    if_false]
  rw [List.nil_append, List.cons_append] at hvalue
  rw [hvalue]
  rfl

theorem takes_elementsField {node : Cursor → Except Fault (Tree × Cursor)} {ts : List Tree}
    (some : ts ≠ []) (room : 0 < levels)
    (htakes : ∀ t ∈ ts, Takes node (t.toJson.chars layout (level + 1)) t) :
    Takes (Tree.readElements node levels) ((FieldValue.elements ts).toJson.chars layout level)
      (.elements ts) := by
  intro p sp rest hsp stop
  obtain ⟨t, ts, rfl⟩ := List.exists_cons_of_ne_nil some
  have hbracket {tail : List Char} : StopsAt Cursor.isSpace ('[' :: tail) := stopsAt_cons rfl
  have hbreak := spaces_lineBreak layout (level + 1)
  have hclose := spaces_lineBreak layout level
  have hitems : itemChars layout (level + 1) (ts.map Tree.toJson)
      = itemsText (fun t => t.toJson.chars layout (level + 1)) (layout.lineBreak (level + 1)) ts := by
    rw [itemChars_eq, itemsText, List.flatMap_map]
    rfl
  have hchars : (FieldValue.elements (t :: ts)).toJson.chars layout level
      = '[' :: (layout.lineBreak (level + 1) ++ (t.toJson.chars layout (level + 1)
        ++ (itemsText (fun t => t.toJson.chars layout (level + 1)) (layout.lineBreak (level + 1)) ts
          ++ (layout.lineBreak level ++ [']'])))) := by
    simp [FieldValue.toJson, chars, hitems]
  have hread := fun q : Place => @readItems_first q rest _ _ _ _ id _ _ t ts hbreak hclose htakes
    fun t _ => startsValue_chars layout _ t.toJson
  rw [hchars]
  simp only [Tree.readElements, List.cons_append, List.append_assoc, List.nil_append,
    Cursor.skipSpace_append hsp hbracket, if_true, if_neg (Nat.ne_of_gt room), hread, List.map_id,
    Except.ok_bind, endArray_bracket]
  simp [pure, Except.pure]

/-! ## Fields of a node -/

section

variable {p : Place} {rest sp gap close : List Char} {print : FieldValue → List Char}
  {value : Field → Cursor → Except Fault (FieldValue × Cursor)}

/-- The text of fields that stand behind others. -/
def fieldsText (print : FieldValue → List Char) (sp gap : List Char)
    (es : List (Field × FieldValue)) : List Char :=
  membersText print sp gap (es.map fun e => (e.1.text, e.2))

/-- Fields are read back that are all different, and differ from those that have been seen. -/
theorem readMemberFields_later {es : List (Field × FieldValue)} {seen : List Field}
    (hsp : Spaces sp) (hgap : Spaces gap) (hclose : Spaces close)
    (htakes : ∀ e ∈ es, Takes (value e.1) (print e.2) e.2) (apart : ∀ e ∈ es, e.1 ∉ seen)
    (nodup : (es.map Prod.fst).Nodup) :
    Tree.readMemberFields value seen false
        ⟨p, fieldsText print sp gap es ++ (close ++ '\x7d' :: rest)⟩
      = .ok (es, ⟨(p.afterAll (fieldsText print sp gap es)).afterAll close, '\x7d' :: rest⟩) := by
  induction es generalizing p seen with
  | nil =>
    rw [Tree.readMemberFields]
    simp only [fieldsText, membersText, List.map_nil, List.flatMap_nil, List.nil_append,
      nextKey_close false hclose, Except.ok_bind]
    rfl
  | cons e es ih =>
    obtain ⟨f, x⟩ := e
    have htext : fieldsText print sp gap ((f, x) :: es) ++ (close ++ '\x7d' :: rest)
        = ',' :: (sp ++ '"' :: (memberText print gap f.text x
            ++ (fieldsText print sp gap es ++ (close ++ '\x7d' :: rest)))) := by
      simp [fieldsText, membersText]
    have hvalues := List.forall_mem_cons.1 htakes
    have hapart := List.forall_mem_cons.1 apart
    have hnodup := List.nodup_cons.1 nodup
    have hstop : StopsAt continuesWord (fieldsText print sp gap es ++ (close ++ '\x7d' :: rest)) :=
      stopsAt_membersText _ hclose
    obtain ⟨d, e, hkey, hcolon, hvalue⟩ :=
      readMember (((p.after ',').afterAll sp).after '"') f.text hgap hvalues.1 hstop
    have hword : wordOf? Field f.text = some f := wordOf?_spelling f
    have hseen : seen.contains f = false := by simpa using hapart.1
    have hlater : ∀ y ∈ es, y.1 ∉ f :: seen := by
      intro y hy
      have hne : y.1 ≠ f := fun heq => hnodup.1 (List.mem_map.2 ⟨y, hy, heq⟩)
      simpa [hne] using hapart.2 y hy
    have hrest := fun q : Place => @ih q (f :: seen) hvalues.2 hlater hnodup.2
    rw [htext, Tree.readMemberFields, nextKey_later hsp]
    simp only [Except.ok_bind, hkey, hword, hseen, hcolon, hvalue, Bool.false_eq_true, if_false]
    rw [dif_pos (by simp only [List.length_cons, List.length_append]; omega)]
    simp only [hrest, Except.ok_bind]
    simp [fieldsText, membersText, pure, Except.pure]

/-- The fields of a node with one at least. -/
theorem readMemberFields_first {f : Field} {x : FieldValue} {es : List (Field × FieldValue)}
    (hsp : Spaces sp) (hgap : Spaces gap) (hclose : Spaces close)
    (htakes : ∀ e ∈ (f, x) :: es, Takes (value e.1) (print e.2) e.2)
    (nodup : (((f, x) :: es).map Prod.fst).Nodup) :
    Tree.readMemberFields value [] true ⟨p, sp ++ '"' :: (memberText print gap f.text x
        ++ (fieldsText print sp gap es ++ (close ++ '\x7d' :: rest)))⟩
      = .ok ((f, x) :: es,
          ⟨((((p.afterAll sp).after '"').afterAll (memberText print gap f.text x)).afterAll
            (fieldsText print sp gap es)).afterAll close, '\x7d' :: rest⟩) := by
  have hvalues := List.forall_mem_cons.1 htakes
  have hnodup := List.nodup_cons.1 nodup
  have hstop : StopsAt continuesWord (fieldsText print sp gap es ++ (close ++ '\x7d' :: rest)) :=
    stopsAt_membersText _ hclose
  obtain ⟨d, e, hkey, hcolon, hvalue⟩ :=
    readMember ((p.afterAll sp).after '"') f.text hgap hvalues.1 hstop
  have hword : wordOf? Field f.text = some f := wordOf?_spelling f
  have hlater : ∀ y ∈ es, y.1 ∉ [f] := by
    intro y hy hmem
    exact hnodup.1 (List.mem_map.2 ⟨y, hy, List.mem_singleton.1 hmem⟩)
  have hrest := fun q : Place =>
    @readMemberFields_later q rest _ _ _ _ _ es [f] hsp hgap hclose hvalues.2 hlater hnodup.2
  rw [Tree.readMemberFields, nextKey_first hsp]
  simp only [Except.ok_bind, hkey, hword, List.contains_nil, hcolon, hvalue, Bool.false_eq_true,
    if_false]
  rw [dif_pos (by simp only [List.length_cons, List.length_append]; omega)]
  simp only [hrest, Except.ok_bind]
  rfl

theorem readMemberFields_nil :
    Tree.readMemberFields value [] true ⟨p, '\x7d' :: rest⟩ = .ok ([], ⟨p, '\x7d' :: rest⟩) := by
  have hnext : nextKey true ⟨p, '\x7d' :: rest⟩ = _ := @nextKey_close p rest [] true spaces_nil
  rw [Tree.readMemberFields, hnext]
  rfl

end

/-! ## Nodes -/

/-- The words of the label are what their texts are read as, and its value is one that can be read. -/
structure Label.Readable (levels : Nat) (l : Label) : Prop extends l.Regular where
  value : ∀ v ∈ l.value, v ≠ .null ∧ Json.Readable levels v

namespace Tree

/-- What a reader can give that may enter `levels` arrays and objects. -/
inductive Readable : Nat → Tree → Prop where
  | node {levels : Nat} {label : Label} {elements : List Tree} (own : label.Readable levels)
      (room : elements ≠ [] → 0 < levels) (inside : ∀ t ∈ elements, Readable (levels - 1) t) :
      Readable (levels + 1) ⟨label, elements⟩

/-- The reader of a field's value, inside a node. -/
abbrev readEntry (levels : Nat) (f : Field) : Cursor → Except Fault (FieldValue × Cursor) :=
  match f.type? with
  | some type => readField type levels
  | none => readElements (readNode (levels - 1)) levels

theorem takes_entry {t : Tree} (own : t.label.Readable levels)
    (room : t.elements ≠ [] → 0 < levels)
    (inside : ∀ u ∈ t.elements, ∀ level,
      Takes (readNode (levels - 1)) (u.toJson.chars layout level) u)
    {f : Field} {x : FieldValue} (h : t.get? f = some x) (back : x.toJson.NumbersReadBack) :
    Takes (readEntry levels f) (x.toJson.chars layout level) x := by
  cases fits_get? h with
  | string text type =>
    unfold readEntry
    rw [type]
    exact takes_stringField text
  | number n => exact takes_numberField back.number
  | boolean b => exact takes_booleanField b
  | any v =>
    have hv := own.value v (by simpa [get?] using h)
    exact takes_anyField hv.2 back hv.1
  | @elements ts some =>
    obtain rfl : t.elements = ts := by
      have hne : t.elements.isEmpty = false := by
        cases hempty : t.elements.isEmpty with
        | false => rfl
        | true => simp [get?, hempty] at h
      simpa [get?, hne] using h
    exact takes_elementsField some (room some) fun u hu => inside u hu (level + 1)

/-- The two ways to read a node. -/
inductive NodeRead : Nat → Cursor → Tree → Cursor → Prop where
  | array {n : Nat} {c e d : Cursor} {rest : List Char} {es : List (Field × FieldValue)}
      (start : c.skipSpace.rest = '[' :: rest)
      (inside : readItemFields (readEntry n) Field.all true ⟨c.skipSpace.place.after '[', rest⟩
        = .ok (es, e))
      (close : endArray e = .ok d) : NodeRead (n + 1) c (ofFields es) d
  | object {n : Nat} {c e d : Cursor} {rest : List Char} {es : List (Field × FieldValue)}
      (start : c.skipSpace.rest = '\x7b' :: rest)
      (inside : readMemberFields (readEntry n) [] true ⟨c.skipSpace.place.after '\x7b', rest⟩
        = .ok (es, e))
      (close : endObject e = .ok d) : NodeRead (n + 1) c (ofFields es) d

theorem nodeRead_of_readNode {levels : Nat} {c d : Cursor} {t : Tree}
    (h : readNode levels c = .ok (t, d)) : NodeRead levels c t d := by
  rw [readNode] at h
  simp only at h
  split at h
  · simp at h
  · next start =>
    split at h
    · next hopen =>
      cases levels with
      | zero => simp at h
      | succ n =>
        simp only at h
        split at h
        · next hch =>
          subst hch
          obtain ⟨⟨es, e⟩, inside, h⟩ := Except.bind_ok_iff.1 h
          obtain ⟨e', close, h⟩ := Except.bind_ok_iff.1 h
          obtain ⟨rfl, rfl⟩ := Prod.mk.inj (Except.ok.inj h)
          exact .array start inside close
        · next hch =>
          obtain rfl := hopen.resolve_left hch
          obtain ⟨⟨es, e⟩, inside, h⟩ := Except.bind_ok_iff.1 h
          obtain ⟨e', close, h⟩ := Except.bind_ok_iff.1 h
          obtain ⟨rfl, rfl⟩ := Prod.mk.inj (Except.ok.inj h)
          exact .object start inside close
    · simp at h

theorem readNode_bracket {n : Nat} {c : Cursor} {rest : List Char}
    (start : c.skipSpace.rest = '[' :: rest) :
    readNode (n + 1) c = (do
      let (fields, d) ← readItemFields (readEntry n) Field.all true
        ⟨c.skipSpace.place.after '[', rest⟩
      return (ofFields fields, ← endArray d)) := by
  have hnode := readNode.eq_def (n + 1) c
  simp only [start, true_or, if_true] at hnode
  exact hnode

theorem readNode_brace {n : Nat} {c : Cursor} {rest : List Char}
    (start : c.skipSpace.rest = '\x7b' :: rest) :
    readNode (n + 1) c = (do
      let (fields, d) ← readMemberFields (readEntry n) [] true
        ⟨c.skipSpace.place.after '\x7b', rest⟩
      return (ofFields fields, ← endObject d)) := by
  have hnode := readNode.eq_def (n + 1) c
  simp only [start, or_true, if_true, if_false, Char.reduceEq] at hnode
  exact hnode

theorem NodeRead.readNode_eq {levels : Nat} {c d : Cursor} {t : Tree} (h : NodeRead levels c t d) :
    readNode levels c = .ok (t, d) := by
  cases h with
  | array start inside close =>
    rw [readNode_bracket start, inside, Except.ok_bind]
    simp only [close, Except.ok_bind]
    rfl
  | object start inside close =>
    rw [readNode_brace start, inside, Except.ok_bind]
    simp only [close, Except.ok_bind]
    rfl

/-- The numbers of a node are those of its fields. -/
theorem numbersReadBack_toJson_iff {t : Tree} :
    t.toJson.NumbersReadBack ↔ ∀ e ∈ t.entries, e.2.toJson.NumbersReadBack := by
  rw [toJson_eq, NumbersReadBack.object_iff, List.forall_mem_map]

/-- The numbers of the elements are numbers of the node. -/
theorem numbersReadBack_of_mem_elements {t u : Tree} (back : t.toJson.NumbersReadBack)
    (hu : u ∈ t.elements) : u.toJson.NumbersReadBack := by
  have hne : t.elements.isEmpty = false := by
    cases helements : t.elements with
    | nil => simp [helements] at hu
    | cons v vs => rfl
  have hentry : (Field.elements, FieldValue.elements t.elements) ∈ t.entries :=
    mem_entries.2 (by simp [get?, hne])
  exact NumbersReadBack.array_iff.1 (numbersReadBack_toJson_iff.1 back _ hentry) _ (List.mem_map_of_mem hu)

/-- A node is read back if its elements are. -/
theorem takes_node {t : Tree} (own : t.label.Readable levels) (back : t.toJson.NumbersReadBack)
    (room : t.elements ≠ [] → 0 < levels)
    (inside : ∀ u ∈ t.elements, ∀ level,
      Takes (readNode (levels - 1)) (u.toJson.chars layout level) u) :
    Takes (readNode (levels + 1)) (t.toJson.chars layout level) t := by
  intro p sp rest hsp stop
  have hbreak := spaces_lineBreak layout (level + 1)
  have hclose := spaces_lineBreak layout level
  have hgap := spaces_gap layout
  have htakes : ∀ e ∈ t.entries,
      Takes (readEntry levels e.1) (e.2.toJson.chars layout (level + 1)) e.2 :=
    fun e he =>
      takes_entry own room inside (get?_of_mem_entries he) (numbersReadBack_toJson_iff.1 back e he)
  have hnodup := nodup_entries t
  have hfields := ofFields_entries own.toRegular
  have hskip := fun tail => @Cursor.skipSpace_append p ('\x7b' :: tail) sp hsp (stopsAt_cons rfl)
  rw [toJson_eq]
  cases hentries : t.entries with
  | nil =>
    rw [hentries] at hfields
    simp only [List.map_nil, chars, List.cons_append, List.nil_append]
    rw [readNode_brace (by rw [hskip]), hskip, readMemberFields_nil]
    simp only [Except.ok_bind, endObject_brace, hfields]
    rfl
  | cons e es =>
    obtain ⟨f, x⟩ := e
    rw [hentries] at htakes hnodup hfields
    have hmembers : memberChars layout (level + 1) (es.map fun e => (e.1.text, e.2.toJson))
        = fieldsText (fun x => x.toJson.chars layout (level + 1)) (layout.lineBreak (level + 1))
            layout.gap es := by
      rw [memberChars_eq, fieldsText, membersText, membersText, List.flatMap_map, List.flatMap_map]
      rfl
    have hread := fun q : Place => @readMemberFields_first q rest _ _ _
      (fun x => x.toJson.chars layout (level + 1)) (readEntry levels) f x es hbreak hgap hclose
      htakes hnodup
    have htext : (Json.object (((f, x) :: es).map fun e => (e.1.text, e.2.toJson))).chars layout level
        = '\x7b' :: (layout.lineBreak (level + 1) ++ '"' :: (memberText
            (fun x => x.toJson.chars layout (level + 1)) layout.gap f.text x
            ++ (fieldsText (fun x => x.toJson.chars layout (level + 1))
              (layout.lineBreak (level + 1)) layout.gap es
              ++ (layout.lineBreak level ++ ['\x7d'])))) := by
      simp [chars, hmembers, stringChars, memberText, Layout.colon_eq]
    rw [htext]
    simp only [List.cons_append, List.append_assoc, List.nil_append]
    rw [readNode_brace (by rw [hskip]), hskip, hread]
    simp only [Except.ok_bind, endObject_brace, hfields]
    simp [pure, Except.pure]

/-- **Readable trees are read back**, in any layout, if their numbers are. -/
theorem Readable.takes {t : Tree} (h : Readable levels t) (back : t.toJson.NumbersReadBack)
    (layout : Layout) (level : Nat) : Takes (readNode levels) (t.toJson.chars layout level) t := by
  induction h generalizing level with
  | node own room inside ih =>
    exact takes_node own back room fun u hu => ih u hu (numbersReadBack_of_mem_elements back hu)

end Tree

end TagQuery
