import TagQuery.Proofs.Tree.Nodes

/-!
# Trees that are read back

What a reader gives is readable, and it is the same whatever the levels that are left:

    readNode levels c = .ok (t, d) → Readable levels t                             (readable_of_readNode)
    readNode m c = .ok x → readNode n c = .ok y → x = y                                  (readNode_unique)

So just the readable trees are read back from their texts, in any layout, and no text of a tree is read as
another one:

    t.toJson.NumbersReadBack →
      (ofText (t.text layout) = .ok t ↔ Readable maxNesting t)                           (ofText_text_iff)
-/

namespace TagQuery

open TagQuery.Json Text

variable {layout : Layout} {level levels : Nat}

/-! ## What has been read -/

/-- A value that a field can be read as, where `levels` arrays and objects may be entered. -/
def FieldValue.Readable (levels : Nat) : FieldValue → Prop
  | .any v => v ≠ .null ∧ Json.Readable levels v
  | .elements trees => 0 < levels ∧ ∀ t ∈ trees, Tree.Readable (levels - 1) t
  | _ => True

theorem readable_of_readField {type : FieldType} {c d : Cursor} {x : FieldValue}
    (h : readField type levels c = .ok (x, d)) : x.Readable levels := by
  unfold readField at h
  simp only at h
  split at h
  · simp at h
  · next ch rest hrest =>
    split at h
    · obtain ⟨e, -, h⟩ := Except.bind_ok_iff.1 h
      obtain ⟨rfl, -⟩ := Prod.mk.inj (Except.ok.inj h)
      trivial
    · next hstart =>
      cases type with
      | any =>
        obtain ⟨⟨v, e⟩, hvalue, h⟩ := Except.bind_ok_iff.1 h
        obtain ⟨rfl, -⟩ := Prod.mk.inj (Except.ok.inj h)
        refine ⟨?_, readable_of_readValue hvalue⟩
        rintro rfl
        have hhead := head_of_readValue_null hvalue
        rw [Cursor.skipSpace_skipSpace, hrest] at hhead
        exact hstart (Option.some.inj hhead)
      | string =>
        simp only at h
        split at h
        · obtain ⟨⟨s, e⟩, -, h⟩ := Except.bind_ok_iff.1 h
          obtain ⟨rfl, -⟩ := Prod.mk.inj (Except.ok.inj h)
          trivial
        · simp at h
      | boolean =>
        simp only at h
        split at h
        · obtain ⟨e, -, h⟩ := Except.bind_ok_iff.1 h
          obtain ⟨rfl, -⟩ := Prod.mk.inj (Except.ok.inj h)
          trivial
        · split at h
          · obtain ⟨e, -, h⟩ := Except.bind_ok_iff.1 h
            obtain ⟨rfl, -⟩ := Prod.mk.inj (Except.ok.inj h)
            trivial
          · simp at h
      | number =>
        simp only at h
        split at h
        · split at h
          · obtain ⟨⟨n, e⟩, -, h⟩ := Except.bind_ok_iff.1 h
            obtain ⟨rfl, -⟩ := Prod.mk.inj (Except.ok.inj h)
            trivial
          · obtain ⟨⟨n, e⟩, -, h⟩ := Except.bind_ok_iff.1 h
            obtain ⟨rfl, -⟩ := Prod.mk.inj (Except.ok.inj h)
            trivial
        · simp at h

namespace Tree

theorem readable_of_readEntry {f : Field} {c d : Cursor} {x : FieldValue}
    (inside : ∀ {c d : Cursor} {t : Tree}, readNode (levels - 1) c = .ok (t, d) →
      Readable (levels - 1) t)
    (h : readEntry levels f c = .ok (x, d)) : x.Readable levels := by
  cases htype : f.type? with
  | some type =>
    simp only [readEntry, htype] at h
    exact readable_of_readField h
  | none =>
    simp only [readEntry, htype, readElements] at h
    split at h
    · simp at h
    · split at h
      · split at h
        · simp at h
        · next hlevels =>
          obtain ⟨⟨ts, e⟩, hitems, h⟩ := Except.bind_ok_iff.1 h
          obtain ⟨e, -, h⟩ := Except.bind_ok_iff.1 h
          obtain ⟨rfl, -⟩ := Prod.mk.inj (Except.ok.inj h)
          refine ⟨Nat.pos_of_ne_zero hlevels, fun t ht => ?_⟩
          obtain ⟨c', d', hread⟩ := mem_readItems hitems t ht
          exact inside hread
      · simp at h

theorem mem_readItemFields {value : Field → Cursor → Except Fault (FieldValue × Cursor)}
    {fs : List Field} {first : Bool} {c d : Cursor} {es : List (Field × FieldValue)}
    (h : readItemFields value fs first c = .ok (es, d)) :
    ∀ e ∈ es, ∃ c' d', value e.1 c' = .ok (e.2, d') := by
  induction fs generalizing first c d es with
  | nil =>
    obtain ⟨rfl, -⟩ := Prod.mk.inj (Except.ok.inj h)
    simp
  | cons f fs ih =>
    obtain ⟨⟨next, e⟩, -, h⟩ := Except.bind_ok_iff.1 h
    cases next with
    | none =>
      obtain ⟨rfl, -⟩ := Prod.mk.inj (Except.ok.inj h)
      simp
    | some start =>
      obtain ⟨⟨x, e⟩, hvalue, h⟩ := Except.bind_ok_iff.1 h
      obtain ⟨⟨xs, e'⟩, hlater, h⟩ := Except.bind_ok_iff.1 h
      obtain ⟨rfl, -⟩ := Prod.mk.inj (Except.ok.inj h)
      intro y hy
      rcases List.mem_cons.1 hy with rfl | hy
      · exact ⟨start, e, hvalue⟩
      · exact ih hlater y hy

theorem mem_readMemberFields {value : Field → Cursor → Except Fault (FieldValue × Cursor)}
    {seen : List Field} {first : Bool} {c d : Cursor} {es : List (Field × FieldValue)}
    (h : readMemberFields value seen first c = .ok (es, d)) :
    ∀ e ∈ es, ∃ c' d', value e.1 c' = .ok (e.2, d') := by
  rw [readMemberFields] at h
  obtain ⟨⟨next, e⟩, -, h⟩ := Except.bind_ok_iff.1 h
  cases next with
  | none =>
    obtain ⟨rfl, -⟩ := Prod.mk.inj (Except.ok.inj h)
    simp
  | some start =>
    obtain ⟨⟨key, e⟩, -, h⟩ := Except.bind_ok_iff.1 h
    simp only at h
    split at h
    · obtain ⟨e, -, h⟩ := Except.bind_ok_iff.1 h
      obtain ⟨e, -, h⟩ := Except.bind_ok_iff.1 h
      split at h
      · exact mem_readMemberFields h
      · simp at h
    · next f hword =>
      split at h
      · simp at h
      · obtain ⟨start, -, h⟩ := Except.bind_ok_iff.1 h
        obtain ⟨⟨x, e⟩, hvalue, h⟩ := Except.bind_ok_iff.1 h
        simp only at h
        split at h
        · obtain ⟨⟨ys, e'⟩, hlater, h⟩ := Except.bind_ok_iff.1 h
          obtain ⟨rfl, -⟩ := Prod.mk.inj (Except.ok.inj h)
          intro y hy
          rcases List.mem_cons.1 hy with rfl | hy
          · exact ⟨start, e, hvalue⟩
          · exact mem_readMemberFields hlater y hy
        · simp at h
termination_by c.rest.length

/-- What can be read of a node, where `levels` arrays and objects may be entered inside it. -/
structure Inside (levels : Nat) (t : Tree) : Prop where
  own : t.label.Readable levels
  room : t.elements ≠ [] → 0 < levels
  inside : ∀ u ∈ t.elements, Readable (levels - 1) u

theorem Inside.readable {t : Tree} (h : Inside levels t) : Readable (levels + 1) t := by
  obtain ⟨label, elements⟩ := t
  exact .node h.own h.room h.inside

theorem inside_empty : Inside levels empty where
  own := { regular_empty with value := by simp [empty] }
  room := by simp [empty]
  inside := by simp [empty]

theorem inside_setField {t : Tree} {x : FieldValue} (h : Inside levels t) (f : Field)
    (hx : x.Readable levels) : Inside levels (t.setField f x) := by
  have hregular := regular_setField h.own.toRegular f x
  revert hregular
  unfold setField
  split
  · exact fun hregular => ⟨{ hregular with value := h.own.value }, h.room, h.inside⟩
  · exact fun hregular => ⟨{ hregular with value := h.own.value }, h.room, h.inside⟩
  · exact fun hregular => ⟨{ hregular with value := h.own.value }, fun _ => hx.1, hx.2⟩
  iterate 7 exact fun hregular => ⟨{ hregular with value := h.own.value }, h.room, h.inside⟩
  · refine fun hregular => ⟨{ hregular with value := fun w hw => ?_ }, h.room, h.inside⟩
    exact Option.some.inj hw ▸ hx
  · exact fun _ => h

theorem inside_ofFields {es : List (Field × FieldValue)} (h : ∀ e ∈ es, e.2.Readable levels) :
    Inside levels (ofFields es) := by
  have step : ∀ t : Tree, Inside levels t →
      Inside levels (es.foldl (fun t f => t.setField f.1 f.2) t) := by
    induction es with
    | nil => exact fun t ht => ht
    | cons e es ih =>
      have hall := List.forall_mem_cons.1 h
      exact fun t ht => ih hall.2 _ (inside_setField ht e.1 hall.1)
  exact step empty inside_empty

/-- What is read is readable. -/
theorem readable_of_readNode {levels : Nat} {c d : Cursor} {t : Tree}
    (h : readNode levels c = .ok (t, d)) : Readable levels t := by
  cases nodeRead_of_readNode h with
  | @array n c e d rest es start fields close =>
    have inside {c d : Cursor} {t : Tree} (h : readNode (n - 1) c = .ok (t, d)) :
        Readable (n - 1) t := readable_of_readNode h
    refine (inside_ofFields fun e he => ?_).readable
    obtain ⟨c', d', hread⟩ := mem_readItemFields fields e he
    exact readable_of_readEntry inside hread
  | @object n c e d rest es start fields close =>
    have inside {c d : Cursor} {t : Tree} (h : readNode (n - 1) c = .ok (t, d)) :
        Readable (n - 1) t := readable_of_readNode h
    refine (inside_ofFields fun e he => ?_).readable
    obtain ⟨c', d', hread⟩ := mem_readMemberFields fields e he
    exact readable_of_readEntry inside hread
termination_by levels

/-! ## More levels -/

theorem readField_refines (type : FieldType) (levels : Nat) :
    Refines (readField type levels) (readField type (levels + 1)) := by
  intro c x h
  unfold readField at h ⊢
  simp only at h ⊢
  split at h
  · simp at h
  · split at h
    · next hnull =>
      rw [if_pos hnull]
      exact h
    · next hnull =>
      rw [if_neg hnull]
      cases type with
      | any =>
        obtain ⟨v, hvalue, h⟩ := Except.bind_ok_iff.1 h
        simp only [readValue_refines levels _ _ hvalue, Except.ok_bind]
        exact h
      | string => exact h
      | boolean => exact h
      | number =>
        simp only at h ⊢
        split at h
        · next hstart =>
          rw [if_pos hstart]
          exact h
        · simp at h

theorem readElements_refines {node stronger : Cursor → Except Fault (Tree × Cursor)} {levels : Nat}
    (hrefines : 0 < levels → Refines node stronger) :
    Refines (readElements node levels) (readElements stronger (levels + 1)) := by
  intro c x h
  unfold readElements at h ⊢
  simp only at h ⊢
  split at h
  · simp at h
  · split at h
    · next hbracket =>
      rw [if_pos hbracket, if_neg (Nat.succ_ne_zero levels)]
      split at h
      · simp at h
      · next hlevels =>
        have hnode := hrefines (Nat.pos_of_ne_zero hlevels)
        obtain ⟨⟨ts, e⟩, hitems, h⟩ := Except.bind_ok_iff.1 h
        rw [readItems_refines hnode true _ _ hitems, Except.ok_bind]
        exact h
    · simp at h

section

variable {value stronger : Field → Cursor → Except Fault (FieldValue × Cursor)}

theorem readItemFields_refines (hrefines : ∀ f, Refines (value f) (stronger f)) (fs : List Field)
    (first : Bool) : Refines (readItemFields value fs first) (readItemFields stronger fs first) := by
  induction fs generalizing first with
  | nil => exact fun c x h => h
  | cons f fs ih =>
    intro c x h
    obtain ⟨⟨next, e⟩, hnext, h⟩ := Except.bind_ok_iff.1 h
    rw [readItemFields, hnext, Except.ok_bind]
    cases next with
    | none => exact h
    | some start =>
      obtain ⟨⟨y, e⟩, hvalue, h⟩ := Except.bind_ok_iff.1 h
      obtain ⟨⟨ys, e'⟩, hlater, h⟩ := Except.bind_ok_iff.1 h
      simp only [hrefines f _ _ hvalue, Except.ok_bind, ih false _ _ hlater]
      exact h

theorem readMemberFields_refines (hrefines : ∀ f, Refines (value f) (stronger f))
    (seen : List Field) (first : Bool) :
    Refines (readMemberFields value seen first) (readMemberFields stronger seen first) := by
  intro c x h
  rw [readMemberFields] at h ⊢
  obtain ⟨⟨next, e⟩, hnext, h⟩ := Except.bind_ok_iff.1 h
  rw [hnext, Except.ok_bind]
  cases next with
  | none => exact h
  | some start =>
    obtain ⟨⟨key, e⟩, hkey, h⟩ := Except.bind_ok_iff.1 h
    simp only [hkey, Except.ok_bind] at h ⊢
    split at h
    · next hword =>
      obtain ⟨start, hcolon, h⟩ := Except.bind_ok_iff.1 h
      obtain ⟨e, hskip, h⟩ := Except.bind_ok_iff.1 h
      simp only [hcolon, hskip, Except.ok_bind] at h ⊢
      split at h
      · next hshort =>
        rw [dif_pos hshort]
        exact readMemberFields_refines hrefines seen false _ _ h
      · simp at h
    · next f hword =>
      split at h
      · simp at h
      · next hseen =>
        obtain ⟨start, hcolon, h⟩ := Except.bind_ok_iff.1 h
        obtain ⟨⟨y, e⟩, hvalue, h⟩ := Except.bind_ok_iff.1 h
        rw [if_neg hseen]
        simp only [hcolon, hrefines f _ _ hvalue, Except.ok_bind] at h ⊢
        split at h
        · next hshort =>
          obtain ⟨⟨ys, e'⟩, hlater, h⟩ := Except.bind_ok_iff.1 h
          rw [dif_pos hshort, readMemberFields_refines hrefines _ false e _ hlater, Except.ok_bind]
          exact h
        · simp at h
termination_by c => c.rest.length

end

theorem readEntry_refines {levels : Nat}
    (hnode : 0 < levels → Refines (readNode (levels - 1)) (readNode levels)) (f : Field) :
    Refines (readEntry levels f) (readEntry (levels + 1) f) := by
  cases htype : f.type? with
  | some type =>
    simp only [readEntry, htype]
    exact readField_refines type levels
  | none =>
    simp only [readEntry, htype]
    exact readElements_refines hnode

/-- What is read is read with more levels too. -/
theorem readNode_refines (levels : Nat) : Refines (readNode levels) (readNode (levels + 1)) := by
  induction levels using Nat.strongRecOn with
  | ind levels ih =>
    rintro c ⟨t, d⟩ h
    apply NodeRead.readNode_eq
    have hentries : ∀ n, levels = n + 1 → ∀ f, Refines (readEntry n f) (readEntry (n + 1) f) := by
      rintro n rfl
      apply readEntry_refines
      intro hpos
      have hnode := ih (n - 1) (by omega)
      rwa [Nat.sub_add_cancel hpos] at hnode
    cases nodeRead_of_readNode h with
    | array start inside close =>
      exact .array start (readItemFields_refines (hentries _ rfl) _ true _ _ inside) close
    | object start inside close =>
      exact .object start (readMemberFields_refines (hentries _ rfl) _ true _ _ inside) close

/-- Two readers that give something at one place give the same. -/
theorem readNode_unique {m n : Nat} {c : Cursor} {x y : Tree × Cursor} (hx : readNode m c = .ok x)
    (hy : readNode n c = .ok y) : x = y := by
  have more : ∀ {n : Nat} {x : Tree × Cursor} (k : Nat), readNode n c = .ok x →
      readNode (n + k) c = .ok x := by
    intro n x k h
    induction k with
    | zero => exact h
    | succ k ih => exact readNode_refines (n + k) c x ih
  have hboth := (more n hx).symm.trans (Nat.add_comm n m ▸ more m hy)
  exact Except.ok.inj hboth

/-! ## Whole texts -/

/-- Readable trees are read back from their text, white space behind it or not. -/
theorem ofText_text {t : Tree} (h : Readable maxNesting t) (back : t.toJson.NumbersReadBack)
    (layout : Layout) {sp : List Char} (hsp : Spaces sp) :
    ofText (t.text layout ++ String.ofList sp) = .ok t := by
  have htext : t.text layout ++ String.ofList sp
      = String.ofList (t.toJson.chars layout 0 ++ sp) := by
    rw [text, Json.text, String.ofList_append]
  rw [htext, ofText]
  exact Except.mapError_ok_iff.2 ((h.takes back layout 0).whole hsp)

theorem readable_of_ofText {text : String} {t : Tree} (h : ofText text = .ok t) :
    Readable maxNesting t := by
  obtain ⟨⟨u, c⟩, hread, h⟩ := Except.bind_ok_iff.1 (Except.mapError_ok_iff.1 h)
  obtain ⟨-, -, h⟩ := Except.bind_ok_iff.1 h
  obtain rfl := Except.ok.inj h
  exact readable_of_readNode hread

/-- **Which trees are read back from their text**, if their numbers are: those that a reader can give at
all. -/
theorem ofText_text_iff {t : Tree} (back : t.toJson.NumbersReadBack) {layout : Layout} :
    ofText (t.text layout) = .ok t ↔ Readable maxNesting t := by
  constructor
  · exact readable_of_ofText
  · intro h
    have hread := ofText_text h back layout spaces_nil
    simpa using hread

/-- The text of a readable tree is read as that tree or not at all. -/
theorem eq_of_ofText_text {levels : Nat} {t u : Tree} (h : Readable levels t)
    (back : t.toJson.NumbersReadBack) (layout : Layout) {sp : List Char} (hsp : Spaces sp)
    (hread : ofText (t.text layout ++ String.ofList sp) = .ok u) :
    u = t := by
  have htext : (t.text layout ++ String.ofList sp).toList = [] ++ (t.toJson.chars layout 0 ++ sp) := by
    rw [text, Json.text, ← String.ofList_append, String.toList_ofList, List.nil_append]
  have htakes := h.takes back layout 0 ⟨1, 0⟩ [] sp spaces_nil (fun c hc =>
    continuesWord_of_isSpace (hsp c (List.mem_of_mem_head? hc)))
  obtain ⟨⟨v, c⟩, hnode, hend⟩ := Except.bind_ok_iff.1 (Except.mapError_ok_iff.1 hread)
  obtain ⟨-, -, hend⟩ := Except.bind_ok_iff.1 hend
  obtain rfl := Except.ok.inj hend
  rw [Cursor.ofText, htext] at hnode
  exact (Prod.mk.inj (readNode_unique hnode htakes)).1

end Tree

end TagQuery
