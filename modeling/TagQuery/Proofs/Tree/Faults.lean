import TagQuery.Proofs.Tree.Parts

/-!
# The first fault of a tree

A tree is read if and only if it is not too large and each node that is reached from the root through
groups has the form of a leaf or of a group (`Fits`).  Otherwise it is refused for its size, or for the
first fault on the way through the tree (`visits`): a node is entered before its elements, these follow
from left to right, and behind the first of them the node is looked at again.

    (∀ u ∈ t.reached, u.Fits) ↔ firstFault t.visits = none                  (forall_fits_iff)
    t.Reports t.part                                                        (reports_part)
    ((∃ f, t.toFilter = .ok f) ↔ …) ∧ ∀ e, t.toFilter = .error e ↔ …        (toFilter_reports_first_fault)
-/

namespace TagQuery

/-! ## Nodes that can be read -/

/-- The fields of a leaf that can be read. -/
structure Label.FitsLeaf (l : Label) : Prop where
  name : ∃ name, l.name = some name ∧ isPlainName name = true
  entity : ∃ o, l.entity = some (.known o)
  operator : (l.typedValueCount = 1 ∧ ∃ op, l.operator = some (.known op) ∧ op.isTest = false)
    ∨ (l.typedValueCount = 0 ∧ ∃ op, l.operator = some (.known op) ∧ op.isTest = true)

namespace Tree

/-- The tree is an `OR`, or leads to one through groups joined by `AND` that have one element each. -/
def leadsToOr : Tree → Bool
  | ⟨l, [t]⟩ => l.isGroupOf .or || (l.isGroupOf .and && t.leadsToOr)
  | ⟨l, _⟩ => l.isGroupOf .or

/-- The node is a leaf, or a group of elements that it may have. -/
inductive Fits : Tree → Prop where
  | leaf {l : Label} {ts : List Tree} (kind : l.isTagFilter = true) (fields : l.FitsLeaf) : Fits ⟨l, ts⟩
  | and {l : Label} {ts : List Tree} (kind : l.isGroupOf .and = true) (some : ts ≠ []) : Fits ⟨l, ts⟩
  | or {l : Label} {t u : Tree} {ts : List Tree} (kind : l.isGroupOf .or = true)
      (first : t.leadsToOr = false) : Fits ⟨l, t :: u :: ts⟩

mutual

/-- The root, and the nodes that are elements of groups among them. -/
def reached : Tree → List Tree
  | ⟨l, ts⟩ => ⟨l, ts⟩ :: if l.isExpression then reachedAll ts else []

def reachedAll : List Tree → List Tree
  | [] => []
  | t :: ts => t.reached ++ reachedAll ts

end

end Tree

/-! ## Faults -/

namespace Label

variable {l : Label}

def nameFault? (l : Label) : Option ShapeError :=
  match l.name with
  | none => some (.missingField .name)
  | some name => if isPlainName name then none else some (.notPlainName name)

def entityFault? (l : Label) : Option ShapeError :=
  match l.entity with
  | none => some (.missingField .entity)
  | some (.known _) => none
  | some (.other found) => some (.unknownEntity found)

/-- There is no operator, or there are too many values for any. -/
def valuesFault? (l : Label) : Option ShapeError :=
  if l.operator = none then some (.missingField .operator)
  else if 1 < l.typedValueCount then some (.conflictingValues (l.name.getD "") l.typedValueCount)
  else none

/-- The operator is none for as many values as there are. -/
def operatorFault? (l : Label) : Option ShapeError :=
  match l.operator with
  | some (.known op) =>
    if op.isTest = (l.typedValueCount == 0) then none
    else some (.wrongOperator op.text (l.typedValueCount != 0))
  | some (.other found) => some (.wrongOperator found (l.typedValueCount != 0))
  | none => none

/-- What is wrong with a leaf: its fields are looked at in this order. -/
def leafFault? (l : Label) : Option ShapeError :=
  (l.nameFault?.or l.entityFault?).or (l.valuesFault?.or l.operatorFault?)

/-- What is wrong with a group of `size` elements by itself. -/
def groupFault? (l : Label) (size : Nat) : Option ShapeError :=
  match l.connective with
  | some (.known .and) => if size = 0 then some .emptyAnd else none
  | some (.known .or) => if size < 2 then some (.shortOr size) else none
  | found => some (.unknownConnective (found.map Open.text))

end Label

/-- One look at a node on the way through a tree. -/
inductive Visit where
  /-- Before the elements of the node. -/
  | enter (t : Tree)
  /-- Behind the first of its elements. -/
  | behindFirst (t : Tree)

/-- What is wrong with a node at one look. -/
def Visit.fault? : Visit → Option ShapeError
  | .enter ⟨l, ts⟩ =>
    if l.isTagFilter then l.leafFault?
    else if l.isExpression then l.groupFault? ts.length
    else some (.unknownKind (l.kind.map Open.text))
  | .behindFirst ⟨l, ts⟩ =>
    if l.isGroupOf .or && ts.head?.any Tree.leadsToOr then some .orFirstInOr else none

/-- The first fault of some looks. -/
def firstFault (vs : List Visit) : Option ShapeError :=
  vs.findSome? Visit.fault?

namespace Tree

mutual

/-- The way through a tree, depth first and from left to right. -/
def visits : Tree → List Visit
  | ⟨l, []⟩ => [.enter ⟨l, []⟩]
  | ⟨l, t :: ts⟩ =>
    .enter ⟨l, t :: ts⟩ ::
      if l.isExpression then t.visits ++ .behindFirst ⟨l, t :: ts⟩ :: visitsAll ts else []

def visitsAll : List Tree → List Visit
  | [] => []
  | t :: ts => t.visits ++ visitsAll ts

end

end Tree

/-! ## Nodes without faults -/

namespace Label

variable {l : Label}

theorem fitsLeaf_iff : l.FitsLeaf ↔ l.leafFault? = none := by
  have hname : l.nameFault? = none ↔ ∃ name, l.name = some name ∧ isPlainName name = true := by
    unfold nameFault?
    split <;> simp_all
  have hentity : l.entityFault? = none ↔ ∃ o, l.entity = some (.known o) := by
    unfold entityFault?
    split <;> simp_all
  have hoperator : l.valuesFault? = none ∧ l.operatorFault? = none ↔
      (l.typedValueCount = 1 ∧ ∃ op, l.operator = some (.known op) ∧ op.isTest = false)
        ∨ (l.typedValueCount = 0 ∧ ∃ op, l.operator = some (.known op) ∧ op.isTest = true) := by
    unfold valuesFault? operatorFault?
    rcases l.operator with _ | op | found
    · simp
    · cases htest : op.isTest
      · simp [htest]
        omega
      · simp [htest]
        omega
    · simp
  simp only [leafFault?, Option.or_eq_none_iff, hname, hentity, hoperator]
  constructor
  · rintro ⟨name, entity, operator⟩
    exact ⟨⟨name, entity⟩, operator⟩
  · rintro ⟨⟨name, entity⟩, operator⟩
    exact ⟨name, entity, operator⟩

end Label

/-- A node that is looked at twice without a fault. -/
theorem Tree.fits_iff {t : Tree} :
    t.Fits ↔ (Visit.enter t).fault? = none ∧ (Visit.behindFirst t).fault? = none := by
  obtain ⟨l, ts⟩ := t
  constructor
  · intro h
    cases h with
    | leaf kind fields =>
      have hgroup : l.isGroupOf .or = false := by
        simp_all [Label.isTagFilter, Label.isGroupOf, Label.isExpression]
      exact ⟨by simpa [Visit.fault?, kind] using Label.fitsLeaf_iff.1 fields,
        by simp [Visit.fault?, hgroup]⟩
    | and kind some =>
      simp_all [Visit.fault?, Label.isTagFilter, Label.isGroupOf, Label.isExpression, Label.groupFault?]
    | or kind first =>
      simp_all [Visit.fault?, Label.isTagFilter, Label.isGroupOf, Label.isExpression, Label.groupFault?]
  · rintro ⟨henter, hbehind⟩
    simp only [Visit.fault?] at henter hbehind
    split at henter
    · next kind => exact .leaf kind (Label.fitsLeaf_iff.2 henter)
    · split at henter
      · next kind =>
        unfold Label.groupFault? at henter
        split at henter
        · next hconnective =>
          have hne : ts ≠ [] := by simpa using henter
          exact .and (by simp [Label.isGroupOf, kind, hconnective]) hne
        · next hconnective =>
          have hor : l.isGroupOf .or = true := by simp [Label.isGroupOf, kind, hconnective]
          rcases ts with _ | ⟨t, _ | ⟨u, ts⟩⟩
          · simp at henter
          · simp at henter
          · exact .or hor (by simpa [hor] using hbehind)
        · simp at henter
      · simp at henter

/-! ## All nodes -/

theorem firstFault_cons (v : Visit) (vs : List Visit) :
    firstFault (v :: vs) = v.fault?.or (firstFault vs) := by
  rw [firstFault, List.findSome?_cons]
  cases v.fault? <;> rfl

theorem firstFault_append (vs ws : List Visit) :
    firstFault (vs ++ ws) = (firstFault vs).or (firstFault ws) :=
  List.findSome?_append

namespace Tree

theorem fault_behindFirst_nil (l : Label) : (Visit.behindFirst ⟨l, []⟩).fault? = none := by
  simp [Visit.fault?]

/-- Only a group joined by `OR` is looked at again. -/
theorem fault_behindFirst_of_not {l : Label} (h : l.isGroupOf .or = false) (ts : List Tree) :
    (Visit.behindFirst ⟨l, ts⟩).fault? = none := by
  simp [Visit.fault?, h]

mutual

/-- All nodes that are reached have their form if and only if there is no fault on the way. -/
theorem forall_fits_iff : ∀ t : Tree, (∀ u ∈ t.reached, u.Fits) ↔ firstFault t.visits = none
  | ⟨l, []⟩ => by
    simp [reached, reachedAll, visits, fits_iff, fault_behindFirst_nil, firstFault]
  | ⟨l, t :: ts⟩ => by
    by_cases hgroup : l.isExpression = true
    · have hfirst := forall_fits_iff t
      have hrest := forall_fitsAll_iff ts
      simp only [reached, reachedAll, visits, hgroup, if_true, List.forall_mem_cons,
        List.forall_mem_append, firstFault_cons, firstFault_append, Option.or_eq_none_iff, fits_iff,
        ← hfirst, ← hrest]
      tauto
    · have hor : l.isGroupOf .or = false := by simp_all [Label.isGroupOf]
      simp [reached, visits, hgroup, fits_iff, fault_behindFirst_of_not hor, firstFault]

theorem forall_fitsAll_iff : ∀ ts : List Tree,
    (∀ u ∈ reachedAll ts, u.Fits) ↔ firstFault (visitsAll ts) = none
  | [] => by simp [reachedAll, visitsAll, firstFault]
  | t :: ts => by
    rw [reachedAll, visitsAll, List.forall_mem_append, firstFault_append, Option.or_eq_none_iff,
      forall_fits_iff t, forall_fitsAll_iff ts]

end

end Tree

/-! ## What the reader says of a leaf -/

namespace Label

variable {l : Label} {e : ShapeError}

theorem leafName_error (h : l.leafName = .error e) : l.nameFault? = some e := by
  unfold leafName at h
  unfold nameFault?
  split at h
  · simp_all
  · split at h <;> simp_all

theorem leafOrigin_error (h : l.leafOrigin = .error e) : l.entityFault? = some e := by
  unfold leafOrigin at h
  unfold entityFault?
  split at h <;> simp_all

theorem leafOperator_error (h : l.leafOperator = .error e) :
    l.valuesFault?.or l.operatorFault? = some e := by
  unfold leafOperator at h
  unfold valuesFault?
  split at h <;> simp_all

theorem isSome_leafValue : l.leafValue.isSome = (l.typedValueCount != 0) := by
  unfold leafValue tagValue typedValueCount
  cases l.stringValue <;> cases l.key <;> cases l.numberValue <;> cases l.booleanValue <;> rfl

/-- A leaf that stands for a condition has the fields for it. -/
theorem fitsLeaf_of_condition {c : Condition} (h : l.condition = .ok c) : l.FitsLeaf := by
  obtain ⟨hname, hplain, ⟨o, hentity, -⟩, -, hoperator, hvalue, hsingle⟩ := condition_ok_iff.1 h
  have hcount := @isSome_leafValue l
  refine ⟨⟨_, hname, hplain⟩, ⟨o, hentity⟩, ?_⟩
  cases c with
  | compare x op v =>
    rw [hvalue] at hcount
    have hsome : l.typedValueCount ≠ 0 := by simpa [Condition.value?] using hcount.symm
    exact .inl ⟨by omega, _, hoperator, LeafOperator.isTest_of _⟩
  | test x op =>
    rw [hvalue] at hcount
    exact .inr ⟨by simpa [Condition.value?] using hcount.symm, _, hoperator, LeafOperator.isTest_of _⟩

/-- An operator is refused for being unknown, or for being of the other kind. -/
theorem conditionOn_error {x : Entity} {op : Open LeafOperator} {v : Option Value}
    (h : conditionOn x op v = .error e) :
    e = .wrongOperator op.text v.isSome ∧ ∀ w, op = .known w → w.isTest = v.isSome := by
  unfold conditionOn at h
  split at h <;> split at h <;> simp only [reduceCtorEq, Except.error.injEq] at h
  · next hop =>
    refine ⟨h.symm, ?_⟩
    rintro w rfl
    obtain ⟨_ | _, rfl⟩ := w.exists_of
    · simp [Open.word?, LeafOperator.of] at hop
    · exact LeafOperator.isTest_of _
  · next hop =>
    refine ⟨h.symm, ?_⟩
    rintro w rfl
    obtain ⟨_ | _, rfl⟩ := w.exists_of
    · exact LeafOperator.isTest_of _
    · simp [Open.word?, LeafOperator.of] at hop

/-- What is wrong with the operator of a leaf, where the values are not too many. -/
theorem operator_error {op : Open LeafOperator} {x : Entity} (hop : l.operator = some op)
    (h : conditionOn x op l.leafValue = .error e) : l.operatorFault? = some e := by
  obtain ⟨rfl, hkind⟩ := conditionOn_error h
  rw [isSome_leafValue] at hkind ⊢
  unfold operatorFault?
  rw [hop]
  cases op with
  | known w =>
    have hother : ¬w.isTest = (l.typedValueCount == 0) := by
      rw [hkind w rfl]
      cases l.typedValueCount <;> simp
    simp only [if_neg hother]
    rfl
  | other found => rfl

/-- A leaf is refused for the first of its faults. -/
theorem condition_error (h : l.condition = .error e) : l.leafFault? = some e := by
  unfold condition at h
  unfold leafFault?
  cases hname : l.leafName with
  | error e' =>
    rw [hname] at h
    obtain rfl := Except.error.inj h
    simp [leafName_error hname]
  | ok name =>
    obtain ⟨hfound, hplain⟩ := leafName_ok_iff.1 hname
    have hnameFault : l.nameFault? = none := by simp [nameFault?, hfound, hplain]
    cases horigin : l.leafOrigin with
    | error e' =>
      rw [hname, horigin] at h
      obtain rfl := Except.error.inj h
      simp [hnameFault, leafOrigin_error horigin]
    | ok o =>
      obtain ⟨side, hside, -⟩ := leafOrigin_ok_iff.1 horigin
      have hentityFault : l.entityFault? = none := by simp [entityFault?, hside]
      rw [hnameFault, hentityFault, Option.none_or, Option.none_or]
      cases hoperator : l.leafOperator with
      | error e' =>
        rw [hname, horigin, hoperator] at h
        obtain rfl := Except.error.inj h
        exact leafOperator_error hoperator
      | ok op =>
        rw [hname, horigin, hoperator] at h
        have hop := leafOperator_ok_iff.1 hoperator
        simp only [Except.ok_bind] at h
        unfold valuesFault?
        split at h
        · next hmany =>
          obtain rfl := Except.error.inj h
          simp [hop, hmany, hfound]
        · next hmany => simp [hop, hmany, operator_error hop h]

end Label

/-! ## What the reader says of a tree -/

/-- What the reader gives for a tree says where the first fault is; a part is a filter where the tree
leads to an `OR`. -/
def Tree.Reports (t : Tree) : Except ShapeError Part → Prop
  | .ok p => firstFault t.visits = none ∧ (t.leadsToOr = true ↔ ∃ f, p = .filter f)
  | .error e => firstFault t.visits = some e

/-- What the reader gives for the elements of a group says where their first fault is. -/
def Tree.ReportsAll (ts : List Tree) : Except ShapeError (List Part) → Prop
  | .ok ps => firstFault (Tree.visitsAll ts) = none ∧ ps.length = ts.length
  | .error e => firstFault (Tree.visitsAll ts) = some e

theorem Tree.ReportsAll.cons {t : Tree} {ts : List Tree} {r : Except ShapeError Part}
    {rs : List (Except ShapeError Part)} (head : t.Reports r) (tail : ReportsAll ts (Part.all rs)) :
    ReportsAll (t :: ts) (Part.all (r :: rs)) := by
  cases r with
  | error e =>
    have hhead : firstFault t.visits = some e := head
    show firstFault (t.visits ++ visitsAll ts) = some e
    rw [firstFault_append, hhead, Option.some_or]
  | ok p =>
    obtain ⟨hhead, -⟩ := head
    rw [Part.all]
    cases hall : Part.all rs with
    | error e =>
      rw [hall] at tail
      have htail : firstFault (visitsAll ts) = some e := tail
      show firstFault (t.visits ++ visitsAll ts) = some e
      rw [firstFault_append, hhead, htail, Option.none_or]
    | ok ps =>
      rw [hall] at tail
      obtain ⟨htail, hlength⟩ := tail
      refine ⟨?_, by simpa using hlength⟩
      rw [visitsAll, firstFault_append, hhead, htail, Option.none_or]

namespace Tree

section

variable {l : Label} {t u : Tree} {ts : List Tree}

theorem enter_of_isGroupOf {c : Connective} (h : l.isGroupOf c = true) :
    (Visit.enter ⟨l, ts⟩).fault? = l.groupFault? ts.length := by
  have hexpression := Label.isExpression_of_isGroupOf h
  simp [Visit.fault?, isTagFilter_of_isGroupOf h, hexpression]

theorem connective_of_isGroupOf {c : Connective} (h : l.isGroupOf c = true) :
    l.kind = some (.known .expression) ∧ l.connective = some (.known c) := by
  simpa [Label.isGroupOf, Label.isExpression] using h

/-- The way through a group with elements. -/
theorem visits_group {c : Connective} (h : l.isGroupOf c = true) :
    firstFault (visits ⟨l, t :: ts⟩) = (l.groupFault? (ts.length + 1)).or
      ((firstFault t.visits).or
        ((Visit.behindFirst ⟨l, t :: ts⟩).fault?.or (firstFault (visitsAll ts)))) := by
  rw [visits, if_pos (Label.isExpression_of_isGroupOf h), firstFault_cons, enter_of_isGroupOf h,
    firstFault_append, firstFault_cons]
  rfl

/-- A group of one element joined by `AND` is its element. -/
theorem reports_only (h : l.isGroupOf .and = true) {r : Except ShapeError Part} (element : t.Reports r) :
    Reports ⟨l, [t]⟩ r := by
  obtain ⟨-, hconnective⟩ := connective_of_isGroupOf h
  have hor : l.isGroupOf .or = false := by simp [Label.isGroupOf, hconnective]
  have hfault : firstFault (visits ⟨l, [t]⟩) = firstFault t.visits := by
    rw [visits_group h, fault_behindFirst_of_not hor]
    simp [Label.groupFault?, hconnective, visitsAll, firstFault]
  have hleads : leadsToOr ⟨l, [t]⟩ = t.leadsToOr := by simp [leadsToOr, h, hor]
  cases r with
  | error e => exact hfault.trans element
  | ok p => exact ⟨hfault.trans element.1, hleads ▸ element.2⟩

theorem reports_and (h : l.isGroupOf .and = true) {rs : List (Except ShapeError Part)}
    (elements : ReportsAll (t :: u :: ts) (Part.all rs)) :
    Reports ⟨l, t :: u :: ts⟩ (Part.all rs >>= Part.joinAnd) := by
  obtain ⟨-, hconnective⟩ := connective_of_isGroupOf h
  have hor : l.isGroupOf .or = false := by simp [Label.isGroupOf, hconnective]
  have hfault : firstFault (visits ⟨l, t :: u :: ts⟩) = firstFault (visitsAll (t :: u :: ts)) := by
    show _ = firstFault (t.visits ++ visitsAll (u :: ts))
    rw [visits_group h, fault_behindFirst_of_not hor, firstFault_append]
    simp [Label.groupFault?, hconnective]
  cases hall : Part.all rs with
  | error e =>
    rw [hall] at elements
    exact hfault.trans elements
  | ok ps =>
    rw [hall] at elements
    obtain ⟨hnone, hlength⟩ := elements
    obtain ⟨p, ps, rfl⟩ := List.exists_cons_of_length_eq_add_one (hlength.trans rfl)
    obtain ⟨o, os, ho⟩ := List.exists_cons_of_ne_nil p.toOperands_ne_nil
    have hjoin : Part.joinAnd (p :: ps) = .ok (.chain (.ofOperands o (os ++ ps.flatMap Part.toOperands))) :=
      Part.joinAnd_ok_iff.2 ⟨_, _, by simp [ho], rfl⟩
    rw [Except.ok_bind, hjoin]
    exact ⟨hfault.trans hnone, by simp [leadsToOr, hor]⟩

theorem reports_or (h : l.isGroupOf .or = true) {r s : Except ShapeError Part}
    {rs : List (Except ShapeError Part)} (head : t.Reports r)
    (tail : ReportsAll (u :: ts) (Part.all (s :: rs))) :
    Reports ⟨l, t :: u :: ts⟩ (Part.ofOr (r :: s :: rs)) := by
  obtain ⟨-, hconnective⟩ := connective_of_isGroupOf h
  have hfault : firstFault (visits ⟨l, t :: u :: ts⟩) = (firstFault t.visits).or
      ((if t.leadsToOr then some .orFirstInOr else none).or (firstFault (visitsAll (u :: ts)))) := by
    have hmany : ¬ts.length + 1 + 1 < 2 := by omega
    rw [visits_group h]
    simp [Label.groupFault?, hconnective, Visit.fault?, h, hmany]
  have hleads : leadsToOr ⟨l, t :: u :: ts⟩ = true := by simp [leadsToOr, h]
  rw [Part.ofOr]
  cases r with
  | error e =>
    have hhead : firstFault t.visits = some e := head
    exact hfault.trans (by rw [hhead, Option.some_or])
  | ok p =>
    obtain ⟨hhead, hfilter⟩ := head
    rw [hhead, Option.none_or] at hfault
    rw [Except.ok_bind]
    split
    · next f =>
      rw [if_pos (hfilter.2 ⟨f, rfl⟩), Option.some_or] at hfault
      exact hfault
    · next hother =>
      have hfirst : ¬t.leadsToOr = true := by
        rw [hfilter]
        rintro ⟨f, rfl⟩
        exact hother f rfl
      rw [if_neg hfirst, Option.none_or] at hfault
      cases hall : Part.all (s :: rs) with
      | error e =>
        rw [hall] at tail
        exact hfault.trans tail
      | ok ps =>
        rw [hall] at tail
        exact ⟨hfault.trans tail.1, by simp [hleads]⟩

/-- What is wrong with a node by itself comes first. -/
theorem firstFault_of_enter {e : ShapeError} (h : (Visit.enter ⟨l, ts⟩).fault? = some e) :
    firstFault (visits ⟨l, ts⟩) = some e := by
  cases ts <;> rw [visits, firstFault_cons, h, Option.some_or]

/-- The elements of a node that is no group are not looked at. -/
theorem firstFault_of_not_isExpression (h : l.isExpression = false) :
    firstFault (visits ⟨l, ts⟩) = (Visit.enter ⟨l, ts⟩).fault? := by
  cases ts <;> simp [visits, h, firstFault]

/-- A node that is no group of a known kind is judged by its own fields. -/
theorem reports_self (noAnd : l.isGroupOf .and = false) (noOr : l.isGroupOf .or = false)
    (rs : List (Except ShapeError Part)) : Reports ⟨l, ts⟩ (l.part rs) := by
  have hleads : leadsToOr ⟨l, ts⟩ = false := by
    match ts with
    | [] => simp [leadsToOr, noOr]
    | [t] => simp [leadsToOr, noOr, noAnd]
    | _ :: _ :: _ => simp [leadsToOr, noOr]
  unfold Label.part
  split
  · next hkind =>
    split
    · next hconnective => simp [Label.isGroupOf, Label.isExpression, hkind, hconnective] at noAnd
    · next hconnective => simp [Label.isGroupOf, Label.isExpression, hkind, hconnective] at noOr
    · next hand hor =>
      refine firstFault_of_enter ?_
      simp [Visit.fault?, Label.isTagFilter, Label.isExpression, hkind, Label.groupFault?]
  · next hkind =>
    have hfault : firstFault (visits ⟨l, ts⟩) = l.leafFault? := by
      rw [firstFault_of_not_isExpression (by simp [Label.isExpression, hkind])]
      simp [Visit.fault?, Label.isTagFilter, hkind]
    cases hcondition : l.condition with
    | error e => exact hfault.trans (Label.condition_error hcondition)
    | ok c =>
      exact ⟨hfault.trans (Label.fitsLeaf_iff.1 (Label.fitsLeaf_of_condition hcondition)), by simp [hleads]⟩
  · next hexpression htag =>
    refine firstFault_of_enter ?_
    have hkind : l.isTagFilter = false ∧ l.isExpression = false := by
      simpa [Label.isTagFilter, Label.isExpression] using And.intro htag hexpression
    simp [Visit.fault?, hkind]

end

mutual

/-- What the reader gives for a tree says where the first fault is. -/
theorem reports_part : ∀ t : Tree, t.Reports t.part
  | ⟨l, []⟩ => by
    rw [part, parts]
    by_cases hand : l.isGroupOf .and = true
    · obtain ⟨hkind, hconnective⟩ := connective_of_isGroupOf hand
      simp only [Label.part, hkind, hconnective]
      refine firstFault_of_enter ?_
      simp [enter_of_isGroupOf hand, Label.groupFault?, hconnective]
    by_cases hor : l.isGroupOf .or = true
    · obtain ⟨hkind, hconnective⟩ := connective_of_isGroupOf hor
      simp only [Label.part, hkind, hconnective]
      refine firstFault_of_enter ?_
      simp [enter_of_isGroupOf hor, Label.groupFault?, hconnective]
    exact reports_self (by simpa using hand) (by simpa using hor) []
  | ⟨l, [t]⟩ => by
    rw [part, parts, parts]
    by_cases hand : l.isGroupOf .and = true
    · obtain ⟨hkind, hconnective⟩ := connective_of_isGroupOf hand
      simp only [Label.part, hkind, hconnective]
      exact reports_only hand (reports_part t)
    by_cases hor : l.isGroupOf .or = true
    · obtain ⟨hkind, hconnective⟩ := connective_of_isGroupOf hor
      simp only [Label.part, hkind, hconnective]
      refine firstFault_of_enter ?_
      simp [enter_of_isGroupOf hor, Label.groupFault?, hconnective]
    exact reports_self (by simpa using hand) (by simpa using hor) _
  | ⟨l, t :: u :: ts⟩ => by
    rw [part]
    by_cases hand : l.isGroupOf .and = true
    · obtain ⟨hkind, hconnective⟩ := connective_of_isGroupOf hand
      simp only [Label.part, hkind, hconnective]
      exact reports_and hand (reportsAll_parts (t :: u :: ts))
    by_cases hor : l.isGroupOf .or = true
    · obtain ⟨hkind, hconnective⟩ := connective_of_isGroupOf hor
      simp only [Label.part, hkind, hconnective]
      exact reports_or hor (reports_part t) (reportsAll_parts (u :: ts))
    exact reports_self (by simpa using hand) (by simpa using hor) _

theorem reportsAll_parts : ∀ ts : List Tree, ReportsAll ts (Part.all (parts ts))
  | [] => ⟨rfl, rfl⟩
  | t :: ts => ReportsAll.cons (reports_part t) (reportsAll_parts ts)

end

end Tree

/-- **Which trees are read, and why others are not.**  A tree is read if and only if it is not too large
and all nodes that are reached through groups have the form of a leaf or a group.  Otherwise it is
refused for its size, or else for the first fault that is met on the way through it. -/
theorem toFilter_reports_first_fault (t : Tree) :
    ((∃ f, t.toFilter = .ok f) ↔ t.nodeCount ≤ maxNodes ∧ ∀ u ∈ t.reached, u.Fits)
      ∧ ∀ e, t.toFilter = .error e ↔
        maxNodes < t.nodeCount ∧ e = .tooLarge t.nodeCount
          ∨ t.nodeCount ≤ maxNodes ∧ firstFault t.visits = some e := by
  have hreports := t.reports_part
  rw [Tree.forall_fits_iff]
  unfold Tree.toFilter
  split
  · next hlarge =>
    have hnot : ¬t.nodeCount ≤ maxNodes := Nat.not_le.2 hlarge
    constructor
    · exact iff_of_false (by simp) fun h => hnot h.1
    · intro e
      simp [hlarge, hnot, eq_comm]
  · next hsmall =>
    have hle := Nat.not_lt.1 hsmall
    cases hpart : t.part with
    | ok p =>
      rw [hpart] at hreports
      obtain ⟨hnone, -⟩ := hreports
      constructor
      · exact iff_of_true ⟨_, rfl⟩ ⟨hle, hnone⟩
      · intro e
        refine iff_of_false nofun ?_
        rintro (⟨hlarge, -⟩ | ⟨-, hfault⟩)
        · exact hsmall hlarge
        · simp [hnone] at hfault
    | error e =>
      rw [hpart] at hreports
      have hfault : firstFault t.visits = some e := hreports
      constructor
      · refine iff_of_false nofun ?_
        rintro ⟨-, hnone⟩
        simp [hfault] at hnone
      · intro e'
        rw [Except.error_bind, hfault]
        simp [hsmall, hle]

end TagQuery
