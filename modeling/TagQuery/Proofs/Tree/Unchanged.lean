import TagQuery.Proofs.Tree.ReadBack

/-!
# Trees that come back unchanged

The tree of a filter is read as a filter that is sent as the same tree.  Other trees can be read too,
and these come back changed: of all trees that stand for a filter, just those come back as they were in
which each node has the form in which it is sent, said here in words of the fields of the node and of
its elements:

    names plain → f.conditions.length ≤ maxConditions →
      ∃ g, f.toTree.toFilter = .ok g ∧ g.toTree = f.toTree                       (Filter.canonical_ok)
    t.toFilter = .ok f → (f.toTree = t ↔ ∀ u ∈ t.nodes, u.AsSent)                (toTree_toFilter_iff)
-/

namespace TagQuery

/-! ## The form in which a node is sent -/

/-- None of the fields of a leaf is set. -/
structure Label.NoLeaf (l : Label) : Prop where
  name : l.name = none
  entity : l.entity = none
  operator : l.operator = none
  key : l.key = none
  stringValue : l.stringValue = none
  numberValue : l.numberValue = none
  booleanValue : l.booleanValue = none
  value : l.value = none

/-- The value without a type repeats the typed one.  With a key, a string has the key in front of it
where it is typed, and stands alone where it is not. -/
inductive Label.Mirrors (l : Label) : Prop where
  | unset (typed : l.typedValueCount = 0) (copy : l.value = none)
  | number {n : Number} (typed : l.numberValue = some n) (copy : l.value = some (.number n))
  | boolean {b : Bool} (typed : l.booleanValue = some b) (copy : l.value = some (.boolean b))
  | string {text : String} (noKey : l.key = none) (typed : l.stringValue = some text)
      (copy : l.value = some (.string text))
  | keyed {key text : String} (hasKey : l.key = some key)
      (typed : l.stringValue = some (key ++ "=" ++ text)) (copy : l.value = some (.string text))

namespace Tree

mutual

/-- The nodes of a tree, each before those below it. -/
def nodes : Tree → List Tree
  | ⟨l, elements⟩ => ⟨l, elements⟩ :: nodesAll elements

def nodesAll : List Tree → List Tree
  | [] => []
  | t :: ts => t.nodes ++ nodesAll ts

end

/-- The node has the form in which filters are sent. -/
structure AsSent (t : Tree) : Prop where
  and : t.label.isGroupOf .and = true →
    2 ≤ t.elements.length ∧ ∀ u ∈ t.elements, u.label.isGroupOf .and = false
  or : t.label.isGroupOf .or = true →
    2 ≤ t.elements.length ∧ ∀ u ∈ t.elements.head?, u.label.isGroupOf .or = false
  group : t.label.isExpression = true → t.label.NoLeaf
  leaf : t.label.isTagFilter = true →
    t.elements = [] ∧ t.label.connective = none ∧ t.label.Mirrors

theorem mem_nodesAll {ts : List Tree} {u : Tree} : u ∈ nodesAll ts ↔ ∃ t ∈ ts, u ∈ t.nodes := by
  induction ts with
  | nil => simp [nodesAll]
  | cons t ts ih => simp [nodesAll, ih]

/-- What holds of all nodes holds of the node and of all nodes of its elements. -/
theorem forall_nodes_iff {P : Tree → Prop} {l : Label} {ts : List Tree} :
    (∀ u ∈ nodes ⟨l, ts⟩, P u) ↔ P ⟨l, ts⟩ ∧ ∀ t ∈ ts, ∀ u ∈ t.nodes, P u := by
  simp only [nodes, List.forall_mem_cons, mem_nodesAll]
  constructor
  · rintro ⟨hnode, hinside⟩
    exact ⟨hnode, fun t ht u hu => hinside u ⟨t, ht, hu⟩⟩
  · rintro ⟨hnode, hinside⟩
    refine ⟨hnode, ?_⟩
    rintro u ⟨t, ht, hu⟩
    exact hinside t ht u hu

end Tree

/-! ## Trees of filters are sent as they are -/

namespace Condition

theorem mirrors_toTree (c : Condition) : c.toTree.label.Mirrors := by
  obtain ⟨⟨name, key, origin⟩, op, v⟩ | ⟨⟨name, key, origin⟩, op⟩ := c
  · cases v with
    | string text =>
      cases key with
      | none => exact .string rfl rfl rfl
      | some key => exact .keyed rfl rfl rfl
    | number n => exact .number rfl rfl
    | boolean b => exact .boolean rfl rfl
  · exact .unset rfl rfl

theorem asSent_toTree (c : Condition) : c.toTree.AsSent where
  and hand := by simp [Tree.isGroupOf_leaf] at hand
  or hor := by simp [Tree.isGroupOf_leaf] at hor
  group hgroup := by
    have hkind := c.label_toTree.1
    simp only [Label.isTagFilter, Label.isExpression, beq_iff_eq] at hkind hgroup
    simp [hkind] at hgroup
  leaf _ := ⟨c.label_toTree.2, c.connective_toTree, c.mirrors_toTree⟩

end Condition

namespace Tree

theorem nodes_of_elements_nil {t : Tree} (h : t.elements = []) : t.nodes = [t] := by
  obtain ⟨l, elements⟩ := t
  obtain rfl : elements = [] := h
  rfl

section

variable {ts : List Tree}

theorem noLeaf_group (c : Connective) : (group (.known c) ts).label.NoLeaf :=
  ⟨rfl, rfl, rfl, rfl, rfl, rfl, rfl, rfl⟩

theorem asSent_and (many : 2 ≤ ts.length) (apart : ∀ t ∈ ts, t.label.isGroupOf .and = false) :
    (group (.known .and) ts).AsSent where
  and _ := ⟨many, apart⟩
  or hor := by simp [isGroupOf_group] at hor
  group _ := noLeaf_group .and
  leaf := nofun

theorem asSent_or (many : 2 ≤ ts.length) (first : ∀ t ∈ ts.head?, t.label.isGroupOf .or = false) :
    (group (.known .or) ts).AsSent where
  and hand := by simp [isGroupOf_group] at hand
  or _ := ⟨many, first⟩
  group _ := noLeaf_group .or
  leaf := nofun

end

/-- Each node of a canonical tree has the form in which filters are sent. -/
theorem Canonical.asSent {t : Tree} (h : Canonical t) : ∀ u ∈ t.nodes, u.AsSent := by
  induction h with
  | leaf c =>
    rw [nodes_of_elements_nil c.label_toTree.2]
    intro u hu
    obtain rfl := List.mem_singleton.1 hu
    exact c.asSent_toTree
  | and many elements apart ih => exact forall_nodes_iff.2 ⟨asSent_and many apart, ih⟩
  | or many elements first ih => exact forall_nodes_iff.2 ⟨asSent_or many first, ih⟩

end Tree

/-! ## Trees of that form are trees of filters -/

theorem Condition.eq_test {c : Condition} (h : c.value? = none) : ∃ e op, c = .test e op := by
  cases c with
  | compare e op v => simp [Condition.value?] at h
  | test e op => exact ⟨e, op, rfl⟩

theorem Condition.eq_compare {c : Condition} {v : Value} (h : c.value? = some v) :
    ∃ e op, c = .compare e op v := by
  cases c with
  | compare e op w =>
    obtain rfl : w = v := by simpa [Condition.value?] using h
    exact ⟨e, op, rfl⟩
  | test e op => simp [Condition.value?] at h

attribute [ext] Label

namespace Label

variable {l : Label} {c : Condition}

/-- The label of a group that has no field of a leaf. -/
theorem eq_group {d : Connective} (kind : l.isGroupOf d = true) (h : l.NoLeaf) :
    l = { kind := some (.known .expression), connective := some (.known d) } := by
  simp only [isGroupOf, isExpression, Bool.and_eq_true, beq_iff_eq] at kind
  exact Label.ext kind.1 kind.2 h.name h.entity h.operator h.key h.stringValue h.numberValue
    h.booleanValue h.value

theorem unset_of_count (h : l.typedValueCount = 0) :
    l.stringValue = none ∧ l.numberValue = none ∧ l.booleanValue = none := by
  cases hs : l.stringValue <;> cases hn : l.numberValue <;> cases hb : l.booleanValue <;>
    simp [typedValueCount, hs, hn, hb] at h ⊢

/-- Where no two values are set, the others are not. -/
theorem others_of_count (h : l.typedValueCount ≤ 1) :
    (l.stringValue.isSome = true → l.numberValue = none ∧ l.booleanValue = none)
      ∧ (l.numberValue.isSome = true → l.stringValue = none ∧ l.booleanValue = none)
      ∧ (l.booleanValue.isSome = true → l.stringValue = none ∧ l.numberValue = none) := by
  cases hs : l.stringValue <;> cases hn : l.numberValue <;> cases hb : l.booleanValue <;>
    simp [typedValueCount, hs, hn, hb] at h ⊢

/-- Of a leaf that repeats its value, the typed values and the copy are those that its condition is sent
with. -/
theorem Mirrors.values_eq (copy : l.Mirrors) (h : l.Describes c) :
    l.stringValue = c.toTree.label.stringValue ∧ l.numberValue = c.toTree.label.numberValue
      ∧ l.booleanValue = c.toTree.label.booleanValue ∧ l.value = c.toTree.label.value := by
  obtain ⟨ofString, ofNumber, ofBoolean⟩ := others_of_count h.single
  cases copy with
  | unset typed copy =>
    obtain ⟨hs, hn, hb⟩ := unset_of_count typed
    have hvalue : c.value? = none := by simp [← h.value, leafValue, tagValue, hs, hn, hb]
    obtain ⟨e, op, rfl⟩ := Condition.eq_test hvalue
    exact ⟨hs, hn, hb, copy⟩
  | @number n typed copy =>
    obtain ⟨hs, hb⟩ := ofNumber (by rw [typed]; rfl)
    have hvalue : c.value? = some (.number n) := by simp [← h.value, leafValue, tagValue, hs, typed]
    obtain ⟨e, op, rfl⟩ := Condition.eq_compare hvalue
    exact ⟨hs, typed, hb, copy⟩
  | @boolean b typed copy =>
    obtain ⟨hs, hn⟩ := ofBoolean (by rw [typed]; rfl)
    have hvalue : c.value? = some (.boolean b) := by
      simp [← h.value, leafValue, tagValue, hs, hn, typed]
    obtain ⟨e, op, rfl⟩ := Condition.eq_compare hvalue
    exact ⟨hs, hn, typed, copy⟩
  | @string text noKey typed copy =>
    obtain ⟨hn, hb⟩ := ofString (by rw [typed]; rfl)
    have hvalue : c.value? = some (.string text) := by
      simp [← h.value, leafValue, tagValue, noKey, typed]
    obtain ⟨⟨name, key, origin⟩, op, rfl⟩ := Condition.eq_compare hvalue
    obtain rfl : none = key := noKey.symm.trans h.key
    exact ⟨typed, hn, hb, copy⟩
  | @keyed key text hasKey typed copy =>
    obtain ⟨hn, hb⟩ := ofString (by rw [typed]; rfl)
    have hvalue : c.value? = some (.string text) := by
      rw [← h.value, leafValue, tagValue_keyed hasKey typed]
    obtain ⟨⟨name, key', origin⟩, op, rfl⟩ := Condition.eq_compare hvalue
    obtain rfl : some key = key' := hasKey.symm.trans h.key
    exact ⟨typed, hn, hb, copy⟩

theorem eq_toTree (kind : l.isTagFilter = true) (connective : l.connective = none) (copy : l.Mirrors)
    (h : l.Describes c) : l = c.toTree.label := by
  obtain ⟨hname, hentity, hoperator, hkey⟩ := fields_toTree c
  obtain ⟨hstring, hnumber, hboolean, hvalue⟩ := copy.values_eq h
  obtain ⟨side, hside, horigin⟩ := h.origin
  have hkind := c.label_toTree.1
  simp only [isTagFilter, beq_iff_eq] at kind hkind
  apply Label.ext
  · rw [kind, hkind]
  · rw [connective, c.connective_toTree]
  · rw [h.name, hname]
  · rw [hside, hentity, horigin, Side.ofOrigin_origin]
  · rw [h.operator, hoperator]
  · rw [h.key, hkey]
  all_goals assumption

end Label

namespace Tree

/-- A leaf that has the form in which filters are sent is the leaf of its condition. -/
theorem eq_leaf {l : Label} {c : Condition} (kind : l.isTagFilter = true)
    (connective : l.connective = none) (copy : l.Mirrors) (h : l.Describes c) : ⟨l, []⟩ = c.toTree := by
  have hlabel := Label.eq_toTree kind connective copy h
  have helements := c.label_toTree.2
  cases htree : c.toTree with
  | mk m elements =>
    rw [htree] at hlabel helements
    obtain rfl : l = m := hlabel
    obtain rfl : elements = [] := helements
    rfl

theorem canonical_elements {ts : List Tree} {ps : List Part}
    (h : List.Forall₂ (fun t _ => (∀ u ∈ t.nodes, u.AsSent) → Canonical t) ts ps)
    (inside : ∀ t ∈ ts, ∀ u ∈ t.nodes, u.AsSent) : ∀ t ∈ ts, Canonical t := by
  induction h with
  | nil => exact nofun
  | cons ht _ ih =>
    obtain ⟨hhead, htail⟩ := List.forall_mem_cons.1 inside
    exact List.forall_mem_cons.2 ⟨ht hhead, ih htail⟩

/-- A tree is canonical if it stands for a part and each node has the form in which filters are sent. -/
theorem canonical_of_asSent {t : Tree} {p : Part} (h : t.part = .ok p)
    (sent : ∀ u ∈ t.nodes, u.AsSent) : Canonical t := by
  revert sent
  refine part_induction (motive := fun t _ => (∀ u ∈ t.nodes, u.AsSent) → Canonical t)
    ⟨?leaf, ?only, ?chain, ?filter⟩ h
  case leaf =>
    intro l ts c kind condition sent
    obtain ⟨hnode, -⟩ := forall_nodes_iff.1 sent
    obtain ⟨rfl, connective, copy⟩ := hnode.leaf kind
    rw [eq_leaf kind connective copy (Label.condition_ok_iff.1 condition)]
    exact .leaf c
  case only =>
    intro l t p kind ht sent
    obtain ⟨hnode, -⟩ := forall_nodes_iff.1 sent
    obtain ⟨many, -⟩ := hnode.and kind
    simp at many
  case chain =>
    intro l ts ps o os kind _ _ hts sent
    obtain ⟨hnode, hinside⟩ := forall_nodes_iff.1 sent
    obtain ⟨many, apart⟩ := hnode.and kind
    rw [Label.eq_group kind (hnode.group (Label.isExpression_of_isGroupOf kind))]
    exact .and many (canonical_elements hts hinside) apart
  case filter =>
    intro l ts p q ps kind _ hts sent
    obtain ⟨hnode, hinside⟩ := forall_nodes_iff.1 sent
    obtain ⟨many, first⟩ := hnode.or kind
    rw [Label.eq_group kind (hnode.group (Label.isExpression_of_isGroupOf kind))]
    exact .or many (canonical_elements hts hinside) first

/-- The leaves of a tree that is read have plain names. -/
theorem plain_leaves {t : Tree} {f : Filter} (h : t.toFilter = .ok f) :
    ∀ l ∈ t.leaves, l.name.any isPlainName = true := by
  intro l hl
  have hmem : l.condition ∈ f.conditions.map .ok := by
    rw [conditions_toFilter h]
    exact List.mem_map_of_mem hl
  obtain ⟨c, -, hc⟩ := List.mem_map.1 hmem
  have hdescribes := Label.condition_ok_iff.1 hc.symm
  simpa [hdescribes.name] using hdescribes.plain

/-- A tree that is read comes back as it was just if each node has the form in which filters are sent. -/
theorem toTree_toFilter_iff {t : Tree} {f : Filter} (h : t.toFilter = .ok f) :
    f.toTree = t ↔ ∀ u ∈ t.nodes, u.AsSent := by
  constructor
  · rintro rfl
    exact f.canonical_toTree.asSent
  · intro sent
    obtain ⟨small, p, hpart, -⟩ := toFilter_ok_iff.1 h
    obtain ⟨g, hg, htree, -⟩ :=
      toFilter_canonical (canonical_of_asSent hpart sent) (plain_leaves h) small
    obtain rfl := Except.ok.inj (h.symm.trans hg)
    exact htree

/-- **Which trees come back unchanged.**  A filter with plain names that is not too long is sent as a
tree that is read and sent again as it was; and of all trees that can be read, just those are sent again
as they were in which each node has the form in which filters are sent. -/
theorem sent_trees_come_back :
    (∀ f : Filter, (∀ c ∈ f.conditions, isPlainName c.entity.name = true) →
        f.conditions.length ≤ maxConditions →
          ∃ g, f.toTree.toFilter = .ok g ∧ g.toTree = f.toTree)
      ∧ ∀ (t : Tree) (f : Filter), t.toFilter = .ok f →
          (f.toTree = t ↔ ∀ u ∈ t.nodes, u.AsSent) := by
  constructor
  · intro f plain count
    obtain ⟨g, hg, htree, -⟩ := Filter.canonical_ok plain count
    exact ⟨g, hg, htree⟩
  · intro t f h
    exact toTree_toFilter_iff h

end Tree

/-! ## Strings that begin like their key -/

/-- A comparison with a string that begins as the strings of the key are typed. -/
def keyInText : Condition := .compare ⟨"a", some "k", none⟩ .notContain (.string "k=x")

/-- The leaf of a tag with a key, its string typed without the key. -/
def keyNotRepeated : Tree :=
  ((Tree.leaf (.known .destination) "a" (.known .equals)).withKey (some "k")).withString "x"

namespace Tree

/-- The key is taken off the one string once and comes back; the other string gets a key that it did not
have, and the tree has a node that no filter is sent with. -/
theorem sent_trees_come_back_keyed :
    (∃ g, keyInText.toTree.toFilter = .ok g ∧ g.toTree = keyInText.toTree
        ∧ ∀ u ∈ keyInText.toTree.nodes, u.AsSent)
      ∧ ∃ f, keyNotRepeated.toFilter = .ok f ∧ f.toTree ≠ keyNotRepeated
        ∧ ¬ ∀ u ∈ keyNotRepeated.nodes, u.AsSent := by
  obtain ⟨hsent, hread⟩ := sent_trees_come_back
  constructor
  · obtain ⟨g, hg, htree⟩ :=
      hsent (.ofOperand (.condition keyInText)) (by decide +kernel) (by decide +kernel)
    exact ⟨g, hg, htree, (hread _ g hg).1 htree⟩
  · have hf : keyNotRepeated.toFilter = .ok (.ofOperand (.condition
        (.compare ⟨"a", some "k", some .destination⟩ .equals (.string "x")))) := by decide +kernel
    have hother : Filter.toTree (.ofOperand (.condition
        (.compare ⟨"a", some "k", some .destination⟩ .equals (.string "x")))) ≠ keyNotRepeated := by
      decide +kernel
    exact ⟨_, hf, hother, fun h => hother ((hread _ _ hf).2 h)⟩

end Tree

end TagQuery
