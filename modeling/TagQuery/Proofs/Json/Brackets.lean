import TagQuery.Proofs.Json.Scalars

/-!
# Items and members that are read back

`Takes read cs a` says that a reader takes the characters `cs` for `a`, behind any white space and in front
of anything that no word goes on with.  Arrays and objects are read through it alone, so that these hold for
values and for trees, and for printed values that are read as others (`get`):

    (∀ x ∈ xs, Takes item (print x) (get x)) → readItems item … = .ok (xs.map get, …)    (readItems_first)
    (∀ m ∈ ms, Takes value (print m.2) (get m.2)) →
      readMembers value … = .ok (ms.map fun m => (m.1, get m.2), …)                    (readMembers_first)

What a reader gives has been read, item by item (`mem_readItems`, `mem_readMembers`).
-/

namespace TagQuery.Json

open Text

variable {p : Place} {rest : List Char}

/-! ## White space -/

/-- White space only. -/
def Spaces (cs : List Char) : Prop :=
  ∀ c ∈ cs, Cursor.isSpace c = true

theorem continuesWord_of_isSpace {c : Char} (h : Cursor.isSpace c = true) :
    continuesWord c = false := by
  simp only [Cursor.isSpace, Bool.or_eq_true, beq_iff_eq] at h
  rcases h with ((rfl | rfl) | rfl) | rfl <;> decide

theorem spaces_nil : Spaces [] := by
  intro c hc
  simp at hc

theorem spaces_lineBreak (layout : Layout) (level : Nat) : Spaces (layout.lineBreak level) := by
  cases layout with
  | compact => exact spaces_nil
  | indented =>
    intro c hc
    rcases List.mem_cons.1 hc with rfl | hc
    · rfl
    · rw [List.eq_of_mem_replicate hc]
      rfl

/-- What stands between a colon and the value. -/
def Layout.gap : Layout → List Char
  | .compact => []
  | .indented => [' ']

theorem Layout.colon_eq (layout : Layout) : layout.colon = ':' :: layout.gap := by
  cases layout <;> rfl

theorem spaces_gap (layout : Layout) : Spaces layout.gap := by
  cases layout with
  | compact => exact spaces_nil
  | indented => simp [Spaces, Layout.gap, Cursor.isSpace]

/-- White space in front of a mark: no word goes on with it. -/
theorem stopsAt_spaces {sp : List Char} (h : Spaces sp) {c : Char} (hc : continuesWord c = false) :
    StopsAt continuesWord (sp ++ c :: rest) := by
  cases sp with
  | nil => exact stopsAt_cons hc
  | cons d sp => exact stopsAt_cons (continuesWord_of_isSpace (h d List.mem_cons_self))

/-- Nothing but white space stands behind a whole text. -/
theorem readEnd_spaces {sp : List Char} (h : Spaces sp) : readEnd ⟨p, sp⟩ = .ok () := by
  have hskip := @Cursor.skipSpace_append p [] sp h stopsAt_nil
  rw [List.append_nil] at hskip
  simp only [readEnd, hskip, List.isEmpty_nil, if_true]

/-! ## Taking -/

/-- The reader takes `cs` for `a`, behind any white space. -/
def Takes {α : Type} (read : Cursor → Except Fault (α × Cursor)) (cs : List Char) (a : α) : Prop :=
  ∀ (p : Place) (sp rest : List Char), Spaces sp → StopsAt continuesWord rest →
    read ⟨p, sp ++ (cs ++ rest)⟩ = .ok (a, ⟨(p.afterAll sp).afterAll cs, rest⟩)

/-- A value takes the whole of its text, and white space behind it. -/
theorem Takes.whole {α : Type} {read : Cursor → Except Fault (α × Cursor)} {cs sp : List Char}
    {a : α} (h : Takes read cs a) (hsp : Spaces sp) :
    (do
      let (a, c) ← read (.ofText (String.ofList (cs ++ sp)))
      readEnd c
      return a) = .ok a := by
  have hstop : StopsAt continuesWord sp := by
    intro c hc
    exact continuesWord_of_isSpace (hsp c (List.mem_of_mem_head? hc))
  have hread := h ⟨1, 0⟩ [] sp spaces_nil hstop
  rw [List.nil_append] at hread
  rw [Cursor.ofText, String.toList_ofList, hread, Except.ok_bind]
  simp only [readEnd_spaces hsp, Except.ok_bind]
  rfl

/-- What the one reader gives, the other gives too. -/
def Refines {α : Type} (read stronger : Cursor → Except Fault (α × Cursor)) : Prop :=
  ∀ c x, read c = .ok x → stronger c = .ok x

/-- The text starts with neither white space nor a bracket that closes. -/
def StartsValue (cs : List Char) : Prop :=
  ∃ c ∈ cs.head?, Cursor.isSpace c = false ∧ c ≠ ']'

theorem StartsValue.eq_cons {cs : List Char} (h : StartsValue cs) :
    ∃ c ds, cs = c :: ds ∧ Cursor.isSpace c = false ∧ c ≠ ']' := by
  obtain ⟨c, hc, hclass⟩ := h
  cases cs with
  | nil => simp at hc
  | cons d ds =>
    obtain rfl : d = c := by simpa using hc
    exact ⟨d, ds, rfl, hclass⟩

/-! ## Items -/

section

variable {α β : Type} {item : Cursor → Except Fault (α × Cursor)} {print : β → List Char} {get : β → α}
  {sp close : List Char}

theorem nextItem_first {cs : List Char} (hsp : Spaces sp) (hcs : StartsValue cs) :
    nextItem true ⟨p, sp ++ (cs ++ rest)⟩
      = .ok (some ⟨p.afterAll sp, cs ++ rest⟩, ⟨p.afterAll sp, cs ++ rest⟩) := by
  obtain ⟨c, ds, rfl, hspace, hclose⟩ := hcs.eq_cons
  simp only [nextItem, List.cons_append, Cursor.skipSpace_append hsp (stopsAt_cons hspace), hclose,
    if_false, if_true]

theorem nextItem_later {cs : List Char} (hsp : Spaces sp) (hcs : StartsValue cs) :
    nextItem false ⟨p, ',' :: (sp ++ (cs ++ rest))⟩
      = .ok (some ⟨(p.after ',').afterAll sp, cs ++ rest⟩,
          ⟨(p.after ',').afterAll sp, cs ++ rest⟩) := by
  obtain ⟨c, ds, rfl, hspace, hclose⟩ := hcs.eq_cons
  have hcomma {tail : List Char} : StopsAt Cursor.isSpace (',' :: tail) := stopsAt_cons rfl
  simp only [nextItem, List.cons_append, Cursor.skipSpace_stop hcomma,
    Cursor.skipSpace_append hsp (stopsAt_cons hspace), hclose, if_false, if_true, Char.reduceEq,
    Bool.false_eq_true]

theorem nextItem_close (first : Bool) (hclose : Spaces close) :
    nextItem first ⟨p, close ++ ']' :: rest⟩
      = .ok (none, ⟨p.afterAll close, ']' :: rest⟩) := by
  have hbracket : StopsAt Cursor.isSpace (']' :: rest) := stopsAt_cons rfl
  simp only [nextItem, Cursor.skipSpace_append hclose hbracket, if_true]

theorem endArray_bracket : endArray ⟨p, ']' :: rest⟩ = .ok ⟨p.after ']', rest⟩ := by
  have hbracket : StopsAt Cursor.isSpace (']' :: rest) := stopsAt_cons rfl
  simp only [endArray, Cursor.skipSpace_stop hbracket, if_true]

theorem readItems_nil :
    readItems item true ⟨p, ']' :: rest⟩ = .ok ([], ⟨p, ']' :: rest⟩) := by
  have hnext : nextItem true ⟨p, ']' :: rest⟩ = _ := @nextItem_close p rest [] true spaces_nil
  rw [readItems, hnext]
  rfl

/-- The text of items that stand behind others. -/
def itemsText (print : β → List Char) (sp : List Char) (xs : List β) : List Char :=
  xs.flatMap fun x => ',' :: (sp ++ print x)

theorem stopsAt_itemsText (xs : List β) (hclose : Spaces close) :
    StopsAt continuesWord (itemsText print sp xs ++ (close ++ ']' :: rest)) := by
  cases xs with
  | nil => exact stopsAt_spaces hclose (by decide)
  | cons x xs => exact stopsAt_cons (by decide)

theorem readItems_later {xs : List β} (hsp : Spaces sp) (hclose : Spaces close)
    (htakes : ∀ x ∈ xs, Takes item (print x) (get x)) (hstarts : ∀ x ∈ xs, StartsValue (print x)) :
    readItems item false ⟨p, itemsText print sp xs ++ (close ++ ']' :: rest)⟩
      = .ok (xs.map get, ⟨(p.afterAll (itemsText print sp xs)).afterAll close, ']' :: rest⟩) := by
  induction xs generalizing p with
  | nil =>
    rw [readItems]
    simp only [itemsText, List.flatMap_nil, List.nil_append, nextItem_close false hclose,
      Except.ok_bind]
    rfl
  | cons x xs ih =>
    have htext : itemsText print sp (x :: xs) ++ (close ++ ']' :: rest)
        = ',' :: (sp ++ (print x ++ (itemsText print sp xs ++ (close ++ ']' :: rest)))) := by
      simp [itemsText]
    have hitem := htakes x List.mem_cons_self ((p.after ',').afterAll sp) []
      (itemsText print sp xs ++ (close ++ ']' :: rest)) spaces_nil (stopsAt_itemsText xs hclose)
    have hrest := ih (p := ((p.after ',').afterAll sp).afterAll (print x))
      (fun y hy => htakes y (List.mem_cons_of_mem _ hy))
      (fun y hy => hstarts y (List.mem_cons_of_mem _ hy))
    rw [List.nil_append] at hitem
    rw [htext, readItems, nextItem_later hsp (hstarts x List.mem_cons_self)]
    simp only [Except.ok_bind, hitem]
    rw [dif_pos (by simp only [List.length_cons, List.length_append]; omega)]
    simp only [Place.afterAll_nil, hrest, Except.ok_bind]
    simp [itemsText, pure, Except.pure]

/-- The items of an array with one at least. -/
theorem readItems_first {x : β} {xs : List β} (hsp : Spaces sp) (hclose : Spaces close)
    (htakes : ∀ y ∈ x :: xs, Takes item (print y) (get y))
    (hstarts : ∀ y ∈ x :: xs, StartsValue (print y)) :
    readItems item true ⟨p, sp ++ (print x ++ (itemsText print sp xs ++ (close ++ ']' :: rest)))⟩
      = .ok ((x :: xs).map get,
          ⟨(((p.afterAll sp).afterAll (print x)).afterAll (itemsText print sp xs)).afterAll close,
            ']' :: rest⟩) := by
  have hitem := htakes x List.mem_cons_self (p.afterAll sp) []
    (itemsText print sp xs ++ (close ++ ']' :: rest)) spaces_nil (stopsAt_itemsText xs hclose)
  have hlater := @readItems_later ((p.afterAll sp).afterAll (print x)) rest _ _ _ _ get _ _ _ hsp hclose
    (fun y hy => htakes y (List.mem_cons_of_mem _ hy))
    (fun y hy => hstarts y (List.mem_cons_of_mem _ hy))
  rw [List.nil_append] at hitem
  rw [readItems, nextItem_first hsp (hstarts x List.mem_cons_self)]
  simp only [Except.ok_bind, hitem]
  have hne : print x ≠ [] := by
    obtain ⟨c, ds, h, -, -⟩ := (hstarts x List.mem_cons_self).eq_cons
    simp [h]
  have hpos := List.length_pos_iff.2 hne
  rw [dif_pos (by simp only [List.length_append]; omega)]
  simp only [Place.afterAll_nil, hlater, Except.ok_bind]
  rfl

theorem readItems_refines {stronger : Cursor → Except Fault (α × Cursor)}
    (hrefines : Refines item stronger) (first : Bool) :
    Refines (readItems item first) (readItems stronger first) := by
  intro c x h
  rw [readItems] at h ⊢
  obtain ⟨⟨next, e⟩, hnext, h⟩ := Except.bind_ok_iff.1 h
  rw [hnext, Except.ok_bind]
  cases next with
  | none => exact h
  | some start =>
    obtain ⟨⟨y, e⟩, hitem, h⟩ := Except.bind_ok_iff.1 h
    simp only [hrefines _ _ hitem, Except.ok_bind] at h ⊢
    split at h
    · next hshort =>
      obtain ⟨⟨ys, e'⟩, hlater, h⟩ := Except.bind_ok_iff.1 h
      rw [dif_pos hshort, readItems_refines hrefines false e _ hlater, Except.ok_bind]
      exact h
    · simp at h
termination_by c => c.rest.length

/-- Each item that is given has been read. -/
theorem mem_readItems {first : Bool} {c d : Cursor} {xs : List α}
    (h : readItems item first c = .ok (xs, d)) : ∀ x ∈ xs, ∃ c' d', item c' = .ok (x, d') := by
  rw [readItems] at h
  obtain ⟨⟨next, e⟩, -, h⟩ := Except.bind_ok_iff.1 h
  cases next with
  | none =>
    obtain ⟨rfl, -⟩ := Prod.mk.inj (Except.ok.inj h)
    simp
  | some start =>
    obtain ⟨⟨x, e⟩, hitem, h⟩ := Except.bind_ok_iff.1 h
    simp only at h
    split at h
    · next hshort =>
      obtain ⟨⟨ys, e'⟩, hlater, h⟩ := Except.bind_ok_iff.1 h
      obtain ⟨rfl, -⟩ := Prod.mk.inj (Except.ok.inj h)
      intro y hy
      rcases List.mem_cons.1 hy with rfl | hy
      · exact ⟨start, e, hitem⟩
      · exact mem_readItems hlater y hy
    · simp at h
termination_by c.rest.length

end

/-! ## Members -/

section

variable {α β : Type} {value : Cursor → Except Fault (α × Cursor)} {print : β → List Char} {get : β → α}
  {sp gap close : List Char}

theorem nextKey_first (hsp : Spaces sp) :
    nextKey true ⟨p, sp ++ '"' :: rest⟩
      = .ok (some ⟨(p.afterAll sp).after '"', rest⟩, ⟨(p.afterAll sp).after '"', rest⟩) := by
  have hquote : StopsAt Cursor.isSpace ('"' :: rest) := stopsAt_cons rfl
  simp only [nextKey, Cursor.skipSpace_append hsp hquote, Char.reduceEq, if_false, if_true]

theorem nextKey_later (hsp : Spaces sp) :
    nextKey false ⟨p, ',' :: (sp ++ '"' :: rest)⟩
      = .ok (some ⟨((p.after ',').afterAll sp).after '"', rest⟩,
          ⟨((p.after ',').afterAll sp).after '"', rest⟩) := by
  have hquote : StopsAt Cursor.isSpace ('"' :: rest) := stopsAt_cons rfl
  have hcomma {tail : List Char} : StopsAt Cursor.isSpace (',' :: tail) := stopsAt_cons rfl
  simp only [nextKey, Cursor.skipSpace_stop hcomma, Cursor.skipSpace_append hsp hquote,
    Char.reduceEq, Bool.false_eq_true, if_false, if_true]

theorem nextKey_close (first : Bool) (hclose : Spaces close) :
    nextKey first ⟨p, close ++ '\x7d' :: rest⟩
      = .ok (none, ⟨p.afterAll close, '\x7d' :: rest⟩) := by
  have hbrace : StopsAt Cursor.isSpace ('\x7d' :: rest) := stopsAt_cons rfl
  simp only [nextKey, Cursor.skipSpace_append hclose hbrace, if_true]

theorem readColon_colon : readColon ⟨p, ':' :: rest⟩ = .ok ⟨p.after ':', rest⟩ := by
  have hcolon : StopsAt Cursor.isSpace (':' :: rest) := stopsAt_cons rfl
  simp only [readColon, Cursor.skipSpace_stop hcolon, if_true]

theorem endObject_brace : endObject ⟨p, '\x7d' :: rest⟩ = .ok ⟨p.after '\x7d', rest⟩ := by
  have hbrace : StopsAt Cursor.isSpace ('\x7d' :: rest) := stopsAt_cons rfl
  simp only [endObject, Cursor.skipSpace_stop hbrace, if_true]

theorem readMembers_nil :
    readMembers value true ⟨p, '\x7d' :: rest⟩ = .ok ([], ⟨p, '\x7d' :: rest⟩) := by
  have hnext : nextKey true ⟨p, '\x7d' :: rest⟩ = _ := @nextKey_close p rest [] true spaces_nil
  rw [readMembers, hnext]
  rfl

/-- The text of a member behind the quote that opens its key. -/
def memberText (print : β → List Char) (gap : List Char) (key : String) (x : β) : List Char :=
  key.toList.flatMap escapedChar ++ '"' :: ':' :: (gap ++ print x)

/-- The text of members that stand behind others. -/
def membersText (print : β → List Char) (sp gap : List Char) (ms : List (String × β)) : List Char :=
  ms.flatMap fun m => ',' :: (sp ++ '"' :: memberText print gap m.1 m.2)

theorem stopsAt_membersText (ms : List (String × β)) (hclose : Spaces close) :
    StopsAt continuesWord (membersText print sp gap ms ++ (close ++ '\x7d' :: rest)) := by
  cases ms with
  | nil => exact stopsAt_spaces hclose (by decide)
  | cons m ms => exact stopsAt_cons (by decide)

/-- A key, the colon and the value behind it. -/
theorem readMember (p : Place) (key : String) {x : β} {a : α} (hgap : Spaces gap)
    (htakes : Takes value (print x) a) (stop : StopsAt continuesWord rest) :
    ∃ d e, readString ⟨p, memberText print gap key x ++ rest⟩ = .ok (key, d) ∧ readColon d = .ok e
      ∧ value e = .ok (a, ⟨p.afterAll (memberText print gap key x), rest⟩) := by
  have htext : memberText print gap key x ++ rest
      = key.toList.flatMap escapedChar ++ '"' :: ':' :: (gap ++ (print x ++ rest)) := by
    simp [memberText]
  have hkey := @readString_printed p (':' :: (gap ++ (print x ++ rest))) key
  rw [← htext] at hkey
  refine ⟨_, _, hkey, readColon_colon, ?_⟩
  rw [htakes _ gap rest hgap stop]
  simp [memberText]

theorem readMembers_later {ms : List (String × β)} (hsp : Spaces sp) (hgap : Spaces gap)
    (hclose : Spaces close) (htakes : ∀ m ∈ ms, Takes value (print m.2) (get m.2)) :
    readMembers value false ⟨p, membersText print sp gap ms ++ (close ++ '\x7d' :: rest)⟩
      = .ok (ms.map fun m => (m.1, get m.2),
          ⟨(p.afterAll (membersText print sp gap ms)).afterAll close, '\x7d' :: rest⟩) := by
  induction ms generalizing p with
  | nil =>
    rw [readMembers]
    simp only [membersText, List.flatMap_nil, List.nil_append, nextKey_close false hclose,
      Except.ok_bind]
    rfl
  | cons m ms ih =>
    obtain ⟨key, x⟩ := m
    have htext : membersText print sp gap ((key, x) :: ms) ++ (close ++ '\x7d' :: rest)
        = ',' :: (sp ++ '"' :: (memberText print gap key x
            ++ (membersText print sp gap ms ++ (close ++ '\x7d' :: rest)))) := by
      simp [membersText]
    have hvalues := List.forall_mem_cons.1 htakes
    have hstop : StopsAt continuesWord (membersText print sp gap ms ++ (close ++ '\x7d' :: rest)) :=
      stopsAt_membersText ms hclose
    obtain ⟨d, e, hkey, hcolon, hvalue⟩ :=
      readMember (((p.after ',').afterAll sp).after '"') key hgap hvalues.1 hstop
    have hrest := fun q : Place => ih (p := q) hvalues.2
    rw [htext, readMembers, nextKey_later hsp]
    simp only [Except.ok_bind, hkey, hcolon, hvalue]
    rw [dif_pos (by simp only [List.length_cons, List.length_append]; omega)]
    simp only [hrest, Except.ok_bind]
    simp [membersText, pure, Except.pure]

/-- The members of an object with one at least. -/
theorem readMembers_first {key : String} {x : β} {ms : List (String × β)} (hsp : Spaces sp)
    (hgap : Spaces gap) (hclose : Spaces close)
    (htakes : ∀ m ∈ (key, x) :: ms, Takes value (print m.2) (get m.2)) :
    readMembers value true ⟨p, sp ++ '"' :: (memberText print gap key x
        ++ (membersText print sp gap ms ++ (close ++ '\x7d' :: rest)))⟩
      = .ok (((key, x) :: ms).map fun m => (m.1, get m.2),
          ⟨((((p.afterAll sp).after '"').afterAll (memberText print gap key x)).afterAll
            (membersText print sp gap ms)).afterAll close, '\x7d' :: rest⟩) := by
  have hvalues := List.forall_mem_cons.1 htakes
  have hstop : StopsAt continuesWord (membersText print sp gap ms ++ (close ++ '\x7d' :: rest)) :=
    stopsAt_membersText ms hclose
  obtain ⟨d, e, hkey, hcolon, hvalue⟩ :=
    readMember ((p.afterAll sp).after '"') key hgap hvalues.1 hstop
  have hrest := fun q : Place =>
    @readMembers_later q rest _ _ _ _ get _ _ _ _ hsp hgap hclose hvalues.2
  rw [readMembers, nextKey_first hsp]
  simp only [Except.ok_bind, hkey, hcolon, hvalue]
  rw [dif_pos (by simp only [List.length_cons, List.length_append]; omega)]
  simp only [hrest, Except.ok_bind]
  rfl

theorem readMembers_refines {stronger : Cursor → Except Fault (α × Cursor)}
    (hrefines : Refines value stronger) (first : Bool) :
    Refines (readMembers value first) (readMembers stronger first) := by
  intro c x h
  rw [readMembers] at h ⊢
  obtain ⟨⟨next, e⟩, hnext, h⟩ := Except.bind_ok_iff.1 h
  rw [hnext, Except.ok_bind]
  cases next with
  | none => exact h
  | some start =>
    obtain ⟨⟨key, e⟩, hkey, h⟩ := Except.bind_ok_iff.1 h
    obtain ⟨start, hcolon, h⟩ := Except.bind_ok_iff.1 h
    obtain ⟨⟨y, e⟩, hvalue, h⟩ := Except.bind_ok_iff.1 h
    simp only [hkey, hcolon, hrefines _ _ hvalue, Except.ok_bind] at h ⊢
    split at h
    · next hshort =>
      obtain ⟨⟨ys, e'⟩, hlater, h⟩ := Except.bind_ok_iff.1 h
      rw [dif_pos hshort, readMembers_refines hrefines false e _ hlater, Except.ok_bind]
      exact h
    · simp at h
termination_by c => c.rest.length

/-- Each value that is given has been read. -/
theorem mem_readMembers {first : Bool} {c d : Cursor} {ms : List (String × α)}
    (h : readMembers value first c = .ok (ms, d)) : ∀ m ∈ ms, ∃ c' d', value c' = .ok (m.2, d') := by
  rw [readMembers] at h
  obtain ⟨⟨next, e⟩, -, h⟩ := Except.bind_ok_iff.1 h
  cases next with
  | none =>
    obtain ⟨rfl, -⟩ := Prod.mk.inj (Except.ok.inj h)
    simp
  | some start =>
    obtain ⟨⟨key, e⟩, -, h⟩ := Except.bind_ok_iff.1 h
    obtain ⟨start, -, h⟩ := Except.bind_ok_iff.1 h
    obtain ⟨⟨x, e⟩, hvalue, h⟩ := Except.bind_ok_iff.1 h
    simp only at h
    split at h
    · next hshort =>
      obtain ⟨⟨ys, e'⟩, hlater, h⟩ := Except.bind_ok_iff.1 h
      obtain ⟨rfl, -⟩ := Prod.mk.inj (Except.ok.inj h)
      intro m hm
      rcases List.mem_cons.1 hm with rfl | hm
      · exact ⟨start, e, hvalue⟩
      · exact mem_readMembers hlater m hm
    · simp at h
termination_by c.rest.length

end

end TagQuery.Json
