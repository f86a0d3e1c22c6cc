import Mathlib.Logic.Relation
import TagQuery.Proofs.Normalize
import TagQuery.Proofs.Tree.FixedPoints

/-!
# Brackets that make no difference

A filter may be written with brackets round operands that stand in a row, round its first alternatives,
or round all of it, and with the destination as the origin where none is written.  `f.Regroups g` is one
such step, at any place of the filter, and `f.Regrouped g` any number of them, forth and back.  No step
changes the tree; and since each filter is regrouped into a canonical one, which its tree tells, filters
that are sent as one tree are regrouped into each other:

    f.Regroups g → f.toTree = g.toTree                                      (Filter.Regroups.toTree_eq)
    names plain → ∃ o, o.Canonical ∧ f.Regrouped (.ofOperand o)             (Filter.regrouped_canonical)
    Filter.parse text = .ok f → Filter.parse text' = .ok g →
      (f.Regrouped g ↔ f.toTree = g.toTree) ∧ …                             (normalize_eq_iff_regrouped)
-/

namespace TagQuery

open Relation (EqvGen)

/-! ## Steps -/

mutual

/-- One step somewhere in a filter. -/
inductive Filter.Regroups : Filter → Filter → Prop where
  /-- Brackets round the alternatives from the first one on: the first one only, some, or all of them, which
  is the whole filter. -/
  | leading {f g h : Filter} {rest : List Chain} (before : f.chains = h.chains ++ rest)
      (after : g.chains = .single (.group h) :: rest) : Filter.Regroups f g
  | alternative {f g : Filter} {c d : Chain} {front back : List Chain}
      (before : f.chains = front ++ c :: back) (after : g.chains = front ++ d :: back)
      (step : Chain.Regroups c d) : Filter.Regroups f g

/-- One step somewhere in a chain. -/
inductive Chain.Regroups : Chain → Chain → Prop where
  /-- Brackets round operands that stand in a row: one, some, or the whole chain. -/
  | run {c d row : Chain} {front back : List Operand} (before : c.operands = front ++ row.operands ++ back)
      (after : d.operands = front ++ .group (.single row) :: back) : Chain.Regroups c d
  | operand {c d : Chain} {o q : Operand} {front back : List Operand}
      (before : c.operands = front ++ o :: back) (after : d.operands = front ++ q :: back)
      (step : Operand.Regroups o q) : Chain.Regroups c d

/-- One step somewhere in an operand. -/
inductive Operand.Regroups : Operand → Operand → Prop where
  /-- The destination as the origin where there is none. -/
  | origin {c : Condition} (absent : c.entity.origin = none) :
      Operand.Regroups (.condition c) (.condition c.stored)
  | group {f g : Filter} (step : Filter.Regroups f g) : Operand.Regroups (.group f) (.group g)

end

/-- Any number of steps, each of them forth or back. -/
def Filter.Regrouped : Filter → Filter → Prop := EqvGen Filter.Regroups

/-- Any number of steps in a chain. -/
def Chain.Regrouped : Chain → Chain → Prop := EqvGen Chain.Regroups

/-! ## Steps keep the tree -/

namespace Tree

theorem Canonical.of_isGroupOf {t : Tree} {c : Connective} (h : Canonical t)
    (hgroup : t.label.isGroupOf c = true) : t = group (.known c) t.elements ∧ 2 ≤ t.elements.length := by
  cases h with
  | leaf d => simp [isGroupOf_leaf] at hgroup
  | and many | or many =>
    simp only [isGroupOf_group, decide_eq_true_eq] at hgroup
    subst hgroup
    exact ⟨rfl, many⟩

/-- Canonical trees are known by what they are merged as. -/
theorem Canonical.merge_inj {t u : Tree} {c : Connective} (ht : Canonical t) (hu : Canonical u)
    (h : t.merge c = u.merge c) : t = u := by
  cases htg : t.label.isGroupOf c <;> cases hug : u.label.isGroupOf c
  · rw [merge_of_not htg, merge_of_not hug] at h
    exact List.singleton_inj.1 h
  · rw [merge_of_not htg, merge_of_isGroupOf hug] at h
    obtain ⟨-, many⟩ := hu.of_isGroupOf hug
    simp [← h] at many
  · rw [merge_of_isGroupOf htg, merge_of_not hug] at h
    obtain ⟨-, many⟩ := ht.of_isGroupOf htg
    simp [h] at many
  · rw [merge_of_isGroupOf htg, merge_of_isGroupOf hug] at h
    rw [(ht.of_isGroupOf htg).1, (hu.of_isGroupOf hug).1, h]

end Tree

open TagQuery.Tree

/-- A chain is merged as all its operands are. -/
theorem Chain.merge_toTree (c : Chain) :
    c.toTree.merge .and = c.operands.flatMap fun o => o.toTree.merge .and := by
  cases c with
  | single o => simp [Chain.toTree, Chain.operands]
  | and o rest =>
    rw [← Chain.toTrees_eq]
    exact merge_of_isGroupOf rfl

/-- A filter is merged as its first alternative is, with the others behind it. -/
theorem Filter.merge_toTree {f : Filter} {c : Chain} {cs : List Chain} (h : f.chains = c :: cs) :
    f.toTree.merge .or = c.toTree.merge .or ++ cs.map Chain.toTree := by
  cases f with
  | single d =>
    obtain ⟨rfl, rfl⟩ := List.cons.inj h
    simp [Filter.toTree]
  | or d rest =>
    obtain ⟨rfl, rfl⟩ := List.cons.inj h
    rw [← Filter.toTrees_eq]
    exact merge_of_isGroupOf rfl

theorem Chain.toTree_congr {c d : Chain}
    (h : c.operands.flatMap (fun o => o.toTree.merge .and)
      = d.operands.flatMap fun o => o.toTree.merge .and) : c.toTree = d.toTree := by
  apply c.canonical_toTree.merge_inj d.canonical_toTree
  rw [c.merge_toTree, d.merge_toTree, h]

theorem Filter.toTree_congr {f g : Filter} (h : f.chains.map Chain.toTree = g.chains.map Chain.toTree) :
    f.toTree = g.toTree := by
  obtain ⟨c, cs, hf⟩ := List.exists_cons_of_ne_nil f.chains_ne_nil
  obtain ⟨d, ds, hg⟩ := List.exists_cons_of_ne_nil g.chains_ne_nil
  rw [hf, hg, List.map_cons, List.map_cons, List.cons.injEq] at h
  apply f.canonical_toTree.merge_inj g.canonical_toTree
  rw [Filter.merge_toTree hf, Filter.merge_toTree hg, h.1, h.2]

mutual

theorem Filter.Regroups.toTree_eq : ∀ {f g : Filter}, f.Regroups g → f.toTree = g.toTree
  | f, g, @Filter.Regroups.leading _ _ h rest before after => by
    obtain ⟨c, cs, hh⟩ := List.exists_cons_of_ne_nil h.chains_ne_nil
    have hf : f.chains = c :: (cs ++ rest) := by rw [before, hh, List.cons_append]
    apply f.canonical_toTree.merge_inj g.canonical_toTree
    calc f.toTree.merge .or
        = c.toTree.merge .or ++ (cs ++ rest).map Chain.toTree := Filter.merge_toTree hf
      _ = h.toTree.merge .or ++ rest.map Chain.toTree := by
          rw [Filter.merge_toTree hh, List.map_append, List.append_assoc]
      _ = g.toTree.merge .or := (Filter.merge_toTree after).symm
  | f, g, .alternative before after step => by
    apply Filter.toTree_congr
    rw [before, after, List.map_append, List.map_append, List.map_cons, List.map_cons, step.toTree_eq]

theorem Chain.Regroups.toTree_eq : ∀ {c d : Chain}, c.Regroups d → c.toTree = d.toTree
  | c, d, @Chain.Regroups.run _ _ row _ _ before after => by
    apply Chain.toTree_congr
    have hrow : (Operand.group (.single row)).toTree.merge .and
        = row.operands.flatMap fun o => o.toTree.merge .and := row.merge_toTree
    rw [before, after, List.flatMap_append, List.flatMap_append, List.flatMap_append, List.flatMap_cons,
      hrow, List.append_assoc]
  | c, d, .operand before after step => by
    apply Chain.toTree_congr
    rw [before, after, List.flatMap_append, List.flatMap_append, List.flatMap_cons, List.flatMap_cons,
      step.toTree_eq]

theorem Operand.Regroups.toTree_eq : ∀ {o q : Operand}, o.Regroups q → o.toTree = q.toTree
  | _, _, .origin (c := c) _ => c.toTree_stored.symm
  | _, _, .group step => step.toTree_eq

end

/-- Filters that are regrouped into each other are sent as one tree. -/
theorem Filter.Regrouped.toTree_eq {f g : Filter} (h : f.Regrouped g) : f.toTree = g.toTree := by
  induction h with
  | rel f g step => exact step.toTree_eq
  | refl f => rfl
  | symm f g _ ih => exact ih.symm
  | trans f g h _ _ ih ih' => exact ih.trans ih'

/-! ## Steps inside other things -/

/-- A step becomes a step where it is put inside of something, and so do any number of steps. -/
theorem eqvGen_lift {α β : Type} {r : α → α → Prop} {s : β → β → Prop} (φ : α → β)
    (h : ∀ a b, r a b → s (φ a) (φ b)) {a b : α} (hab : EqvGen r a b) : EqvGen s (φ a) (φ b) := by
  induction hab with
  | rel a b step => exact .rel _ _ (h a b step)
  | refl a => exact .refl _
  | symm a b _ ih => exact .symm _ _ ih
  | trans a b c _ _ ih ih' => exact .trans _ _ _ ih ih'

/-- Two chains, one behind the other. -/
def Chain.append : Chain → Chain → Chain
  | .single o, d => .and o d
  | .and o rest, d => .and o (rest.append d)

theorem Chain.operands_append (c d : Chain) : (c.append d).operands = c.operands ++ d.operands := by
  induction c using Chain.operands.induct with
  | case1 o => rfl
  | case2 o rest ih => simp [Chain.append, Chain.operands, ih]

namespace Chain

variable {c c' d d' : Chain}

theorem Regroups.append_left (h : c.Regroups c') (d : Chain) : (c.append d).Regroups (c'.append d) := by
  cases h with
  | @run _ _ row front back before after =>
    refine @Regroups.run _ _ row front (back ++ d.operands) ?_ ?_ <;>
      simp [operands_append, before, after]
  | @operand _ _ o q front back before after step =>
    refine @Regroups.operand _ _ o q front (back ++ d.operands) ?_ ?_ step <;>
      simp [operands_append, before, after]

theorem Regroups.append_right (h : d.Regroups d') (c : Chain) : (c.append d).Regroups (c.append d') := by
  cases h with
  | @run _ _ row front back before after =>
    refine @Regroups.run _ _ row (c.operands ++ front) back ?_ ?_ <;>
      simp [operands_append, before, after]
  | @operand _ _ o q front back before after step =>
    refine @Regroups.operand _ _ o q (c.operands ++ front) back ?_ ?_ step <;>
      simp [operands_append, before, after]

theorem Regrouped.append (h : c.Regrouped c') (h' : d.Regrouped d') :
    (c.append d).Regrouped (c'.append d') :=
  .trans _ _ _ (eqvGen_lift (fun c => c.append d) (fun _ _ step => step.append_left d) h)
    (eqvGen_lift c'.append (fun _ _ step => step.append_right c') h')

/-- Brackets round a whole chain. -/
theorem Regroups.whole (c : Chain) : c.Regroups (.single (.group (.single c))) :=
  @Regroups.run _ _ c [] [] (by simp) rfl

end Chain

/-- Brackets round a whole filter. -/
theorem Filter.Regroups.whole (f : Filter) : f.Regroups (.ofOperand (.group f)) :=
  .leading f.chains.append_nil.symm rfl

theorem Chain.Regrouped.of_group {f g : Filter} (h : f.Regrouped g) :
    Chain.Regrouped (.single (.group f)) (.single (.group g)) :=
  eqvGen_lift (fun f => Chain.single (.group f))
    (fun _ _ step => @Chain.Regroups.operand _ _ _ _ [] [] rfl rfl (.group step)) h

theorem Filter.chains_inj {f g : Filter} (h : f.chains = g.chains) : f = g := by
  obtain ⟨c, cs, hg⟩ := List.exists_cons_of_ne_nil g.chains_ne_nil
  rw [← Filter.ofChains_eq hg, ← Filter.ofChains_eq (h.trans hg)]

theorem Filter.exists_chains (front : List Chain) (c : Chain) (back : List Chain) :
    ∃ f : Filter, f.chains = front ++ c :: back := by
  cases front with
  | nil => exact ⟨.ofChains c back, Filter.chains_ofChains c back⟩
  | cons d front => exact ⟨.ofChains d (front ++ c :: back), Filter.chains_ofChains _ _⟩

/-- A chain that is regrouped as one of the alternatives. -/
theorem Filter.Regrouped.of_alternative {c d : Chain} (h : c.Regrouped d) (front back : List Chain) :
    ∀ {f g : Filter}, f.chains = front ++ c :: back → g.chains = front ++ d :: back → f.Regrouped g := by
  induction h with
  | rel c d step => exact fun before after => .rel _ _ (.alternative before after step)
  | refl c =>
    intro f g before after
    rw [Filter.chains_inj (before.trans after.symm)]
    exact .refl g
  | symm c d _ ih => exact fun before after => .symm _ _ (ih after before)
  | trans c d e _ _ ih ih' =>
    intro f g before after
    obtain ⟨h, hh⟩ := Filter.exists_chains front d back
    exact .trans _ _ _ (ih before hh) (ih' hh after)

/-- Alternatives that are regrouped, each for itself. -/
theorem Filter.Regrouped.of_alternatives {cs ds : List Chain} (h : List.Forall₂ Chain.Regrouped cs ds) :
    ∀ {front : List Chain} {f g : Filter}, f.chains = front ++ cs → g.chains = front ++ ds →
      f.Regrouped g := by
  induction h with
  | nil =>
    intro front f g before after
    rw [Filter.chains_inj (before.trans after.symm)]
    exact .refl g
  | @cons c d cs ds hcd _ ih =>
    intro front f g before after
    obtain ⟨h, hh⟩ := Filter.exists_chains front d cs
    have hrest : h.chains = (front ++ [d]) ++ cs := by rw [hh, List.append_assoc]; rfl
    have hafter : g.chains = (front ++ [d]) ++ ds := by rw [after, List.append_assoc]; rfl
    exact .trans _ _ _ (Filter.Regrouped.of_alternative hcd front cs before hh) (ih hrest hafter)

/-! ## Every filter is regrouped into a canonical one -/

/-- A canonical operand is regrouped into a chain of canonical operands without an `AND`. -/
theorem Operand.Canonical.regrouped {q : Operand} (h : q.Canonical) :
    ∃ d : Chain, (∀ o ∈ d.operands, o.Canonical ∧ o.isAnd = false)
      ∧ Chain.Regrouped (.single q) d := by
  have hoperands := h.toOperands
  obtain c | c | ⟨c, rest⟩ := q
  · exact ⟨.single (.condition c), hoperands, .refl _⟩
  · exact ⟨c, hoperands, .symm _ _ (.rel _ _ (.whole c))⟩
  · exact ⟨.single (.group (.or c rest)), hoperands, .refl _⟩

/-- A chain of canonical operands without an `AND` is regrouped into one canonical operand. -/
theorem Chain.regrouped_canonical {d : Chain} (h : ∀ o ∈ d.operands, o.Canonical ∧ o.isAnd = false) :
    ∃ q : Operand, q.Canonical ∧ d.Regrouped (.single q) := by
  cases d with
  | single o => exact ⟨o, (h o List.mem_cons_self).1, .refl _⟩
  | and o rest =>
    have hmany : 2 ≤ (Chain.and o rest).operands.length := by
      have := List.length_pos_iff.2 rest.operands_ne_nil
      rw [Chain.operands, List.length_cons]
      omega
    exact ⟨_, .and hmany (fun q hq => (h q hq).1) (fun q hq => (h q hq).2), .rel _ _ (.whole _)⟩

/-- An `OR` in brackets loses them where it is the first alternative; what stood behind it stands behind
its own alternatives. -/
theorem Operand.Canonical.leading {h g : Filter} {os : List Operand}
    (first : (Operand.group h).Canonical) (isOr : (Operand.group h).isOr = true)
    (others : ∀ o ∈ os, o.Canonical) (chains : g.chains = h.chains ++ os.map .single) :
    (Operand.group g).Canonical := by
  cases first with
  | and => simp [Operand.isOr] at isOr
  | or many single operands first =>
    refine .or ?_ ?_ ?_ ?_ <;> rw [chains]
    · rw [List.length_append]
      omega
    · intro c hc
      rcases List.mem_append.1 hc with hc | hc
      · exact single c hc
      · obtain ⟨o, -, rfl⟩ := List.mem_map.1 hc
        rfl
    · intro o ho
      rcases List.mem_append.1 ho with ho | ho
      · exact operands o ho
      · obtain ⟨q, hq, heq⟩ := List.mem_map.1 ho
        obtain rfl := Chain.single.inj heq
        exact others q hq
    · intro o ho
      rw [List.head?_append_of_ne_nil _ h.chains_ne_nil] at ho
      exact first o ho

/-- Alternatives that are canonical operands are regrouped into one canonical operand. -/
theorem Filter.regrouped_operand {g : Filter} {os : List Operand} (h : ∀ o ∈ os, o.Canonical)
    (chains : g.chains = os.map .single) :
    ∃ q : Operand, q.Canonical ∧ g.Regrouped (.ofOperand q) := by
  rcases os with _ | ⟨o, _ | ⟨q, os⟩⟩
  · exact absurd chains g.chains_ne_nil
  · obtain rfl : g = .ofOperand o := Filter.chains_inj chains
    exact ⟨o, h o List.mem_cons_self, .refl _⟩
  · cases hor : o.isOr with
    | false =>
      have hg : Filter.ofChains (.single o) ((q :: os).map .single) = g := Filter.ofChains_eq chains
      have hcanonical := canonical_filter h hor
      rw [hg] at hcanonical
      exact ⟨_, hcanonical, .rel _ _ (.whole g)⟩
    | true =>
      -- brackets round the first alternatives are taken away before all alternatives are put in brackets
      obtain ⟨hfirst, hothers⟩ := List.forall_mem_cons.1 h
      obtain _ | f := o
      · simp [Operand.isOr] at hor
      obtain ⟨c, cs, hf⟩ := List.exists_cons_of_ne_nil f.chains_ne_nil
      have hm : (Filter.ofChains c (cs ++ (q :: os).map .single)).chains
          = f.chains ++ (q :: os).map .single := by
        rw [Filter.chains_ofChains, hf, List.cons_append]
      exact ⟨_, hfirst.leading hor hothers hm,
        .trans _ _ _ (.symm _ _ (.rel _ _ (.leading hm chains))) (.rel _ _ (.whole _))⟩

theorem Filter.regrouped_of_alternatives {f : Filter} {os : List Operand} (h : ∀ o ∈ os, o.Canonical)
    (alternatives : List.Forall₂ Chain.Regrouped f.chains (os.map .single)) :
    ∃ q : Operand, q.Canonical ∧ f.Regrouped (.ofOperand q) := by
  obtain ⟨g, hg⟩ : ∃ g : Filter, g.chains = os.map .single := by
    cases os with
    | nil => exact absurd (List.forall₂_nil_right_iff.1 alternatives) f.chains_ne_nil
    | cons o os => exact ⟨.ofChains (.single o) (os.map .single), Filter.chains_ofChains _ _⟩
  have hfg : f.Regrouped g := .of_alternatives alternatives (List.nil_append _).symm hg
  obtain ⟨q, hq, hgq⟩ := Filter.regrouped_operand h hg
  exact ⟨q, hq, .trans _ _ _ hfg hgq⟩

mutual

/-- The alternatives are regrouped into canonical operands. -/
theorem Filter.regrouped_alternatives : ∀ f : Filter,
    (∀ c ∈ f.conditions, isPlainName c.entity.name = true) →
      ∃ os : List Operand, (∀ o ∈ os, o.Canonical)
        ∧ List.Forall₂ Chain.Regrouped f.chains (os.map .single)
  | .single c, plain => by
    obtain ⟨d, hd, hc⟩ := c.regrouped_operands plain
    obtain ⟨o, ho, hdo⟩ := Chain.regrouped_canonical hd
    exact ⟨[o], by simpa using ho, .cons (.trans _ _ _ hc hdo) .nil⟩
  | .or c rest, plain => by
    obtain ⟨hplain, hrest⟩ := List.forall_mem_append.1 plain
    obtain ⟨d, hd, hc⟩ := c.regrouped_operands hplain
    obtain ⟨o, ho, hdo⟩ := Chain.regrouped_canonical hd
    obtain ⟨os, hos, hcs⟩ := rest.regrouped_alternatives hrest
    exact ⟨o :: os, List.forall_mem_cons.2 ⟨ho, hos⟩, .cons (.trans _ _ _ hc hdo) hcs⟩

theorem Chain.regrouped_operands : ∀ c : Chain,
    (∀ d ∈ c.conditions, isPlainName d.entity.name = true) →
      ∃ d : Chain, (∀ o ∈ d.operands, o.Canonical ∧ o.isAnd = false) ∧ c.Regrouped d
  | .single o, plain => o.regrouped_operands plain
  | .and o rest, plain => by
    obtain ⟨hplain, hrest⟩ := List.forall_mem_append.1 plain
    obtain ⟨d, hd, ho⟩ := o.regrouped_operands hplain
    obtain ⟨e, he, hr⟩ := rest.regrouped_operands hrest
    refine ⟨d.append e, ?_, Chain.Regrouped.append ho hr⟩
    rw [Chain.operands_append]
    exact List.forall_mem_append.2 ⟨hd, he⟩

theorem Operand.regrouped_operands : ∀ o : Operand,
    (∀ c ∈ o.conditions, isPlainName c.entity.name = true) →
      ∃ d : Chain, (∀ q ∈ d.operands, q.Canonical ∧ q.isAnd = false) ∧ Chain.Regrouped (.single o) d
  | .condition c, plain => by
    have hc : c.stored.entity = c.entity.stored := c.entity_stored
    have hplain : isPlainName c.entity.name = true := plain c List.mem_cons_self
    have hcanonical : (Operand.condition c.stored).Canonical :=
      .condition (by rw [hc]; exact hplain) (by rw [hc]; rfl)
    refine ⟨.single (.condition c.stored), hcanonical.toOperands, ?_⟩
    cases horigin : c.entity.origin with
    | none => exact .rel _ _ (@Chain.Regroups.operand _ _ _ _ [] [] rfl rfl (.origin horigin))
    | some o =>
      rw [c.stored_eq (by rw [horigin]; rfl)]
      exact .refl _
  | .group f, plain => by
    obtain ⟨os, hos, halternatives⟩ := f.regrouped_alternatives plain
    obtain ⟨q, hq, hf⟩ := Filter.regrouped_of_alternatives hos halternatives
    obtain ⟨d, hd, hqd⟩ := hq.regrouped
    have hbrackets : Chain.Regrouped (.single (.group (.ofOperand q))) (.single q) :=
      .symm _ _ (.rel _ _ (.whole (.single q)))
    exact ⟨d, hd, .trans _ _ _ (Chain.Regrouped.of_group hf) (.trans _ _ _ hbrackets hqd)⟩

end

/-- Every filter with plain names is regrouped into a canonical one. -/
theorem Filter.regrouped_canonical {f : Filter}
    (plain : ∀ c ∈ f.conditions, isPlainName c.entity.name = true) :
    ∃ o : Operand, o.Canonical ∧ f.Regrouped (.ofOperand o) := by
  obtain ⟨os, hos, halternatives⟩ := f.regrouped_alternatives plain
  exact Filter.regrouped_of_alternatives hos halternatives

/-- Filters that are sent as one tree are regrouped into each other. -/
theorem Filter.regrouped_iff {f g : Filter}
    (plain : ∀ c ∈ f.conditions, isPlainName c.entity.name = true)
    (plain' : ∀ c ∈ g.conditions, isPlainName c.entity.name = true) :
    f.Regrouped g ↔ f.toTree = g.toTree := by
  refine ⟨fun h => h.toTree_eq, fun htree => ?_⟩
  obtain ⟨o, ho, hfo⟩ := Filter.regrouped_canonical plain
  obtain ⟨q, hq, hgq⟩ := Filter.regrouped_canonical plain'
  have hoq : o.toTree = q.toTree := by
    calc o.toTree = f.toTree := hfo.toTree_eq.symm
      _ = g.toTree := htree
      _ = q.toTree := hgq.toTree_eq
  obtain rfl := ho.toTree_inj hq hoq
  exact .trans _ _ _ hfo (.symm _ _ hgq)

/-! ## Normalization -/

/-- **Normalization ignores brackets that make no difference, and origins that are left out**, and
nothing else: what two texts are read as is sent as one tree, and the texts have one canonical text, if
and only if the one filter is regrouped into the other. -/
theorem normalize_eq_iff_regrouped {text text' : String} {f g : Filter} (hf : Filter.parse text = .ok f)
    (hg : Filter.parse text' = .ok g) :
    (f.Regrouped g ↔ f.toTree = g.toTree)
      ∧ (f.Regrouped g ↔ ∃ c, normalize text = .ok c ∧ normalize text' = .ok c) := by
  have hiff := Filter.regrouped_iff (Filter.isPlain_of_parse hf) (Filter.isPlain_of_parse hg)
  obtain ⟨f', hf', hftree, -⟩ := exists_canonical hf
  obtain ⟨g', hg', hgtree, -⟩ := exists_canonical hg
  refine ⟨hiff, hiff.trans ?_⟩
  rw [normalize_eq hf hf', normalize_eq hg hg']
  constructor
  · intro htree
    rw [htree, hg'] at hf'
    rw [Except.ok.inj hf']
    exact ⟨_, rfl, rfl⟩
  · rintro ⟨c, hfc, hgc⟩
    have htext : f'.text = g'.text := Except.ok.inj (hfc.trans hgc.symm)
    rw [← hftree, ← hgtree, Filter.text_inj (isPlain_toFilter hf') (isPlain_toFilter hg') htext]

/-! ## Brackets round alternatives -/

/-- A test on a tag of its own. -/
def emptyTag (name : String) : Condition := .test ⟨name, none, none⟩ .isEmpty

/-- Three alternatives, without a bracket. -/
def noBrackets : Filter :=
  .or (.single (.condition (emptyTag "a"))) (.or (.single (.condition (emptyTag "b")))
    (.single (.single (.condition (emptyTag "c")))))

/-- The first two of them. -/
def firstTwo : Filter :=
  .or (.single (.condition (emptyTag "a"))) (.single (.single (.condition (emptyTag "b"))))

/-- Brackets round the first two. -/
def bracketsInFront : Filter :=
  .or (.single (.group firstTwo)) (.single (.single (.condition (emptyTag "c"))))

/-- Brackets round the first two, and the destination as the origin of the third. -/
def bracketsAndOrigin : Filter :=
  .or (.single (.group firstTwo)) (.single (.single (.condition (emptyTag "c").stored)))

/-- Brackets round the last two. -/
def bracketsBehind : Filter :=
  .or (.single (.condition (emptyTag "a"))) (.single (.single (.group
    (.or (.single (.condition (emptyTag "b"))) (.single (.single (.condition (emptyTag "c"))))))))

/-- Brackets round the first alternatives make no difference, nor does an origin that is written out; but
brackets round the last alternatives do. -/
theorem normalize_eq_iff_regrouped_alternatives :
    noBrackets.Regrouped bracketsAndOrigin
      ∧ (∃ c, normalize noBrackets.text = .ok c ∧ normalize bracketsAndOrigin.text = .ok c)
      ∧ ¬ ∃ c, normalize noBrackets.text = .ok c ∧ normalize bracketsBehind.text = .ok c := by
  have hnone : Filter.parse noBrackets.text = .ok noBrackets := by
    rw [Filter.parse_text_iff]
    decide +kernel
  have horigin : Filter.parse bracketsAndOrigin.text = .ok bracketsAndOrigin := by
    rw [Filter.parse_text_iff]
    decide +kernel
  have hbehind : Filter.parse bracketsBehind.text = .ok bracketsBehind := by
    rw [Filter.parse_text_iff]
    decide +kernel
  have hbrackets : noBrackets.Regroups bracketsInFront :=
    @Filter.Regroups.leading _ _ firstTwo _ rfl rfl
  have hthird : bracketsInFront.Regroups bracketsAndOrigin :=
    @Filter.Regroups.alternative _ _ _ _ [_] [] rfl rfl
      (@Chain.Regroups.operand _ _ _ _ [] [] rfl rfl (.origin rfl))
  have hregrouped : noBrackets.Regrouped bracketsAndOrigin :=
    .trans _ _ _ (.rel _ _ hbrackets) (.rel _ _ hthird)
  obtain ⟨-, hsame⟩ := normalize_eq_iff_regrouped hnone horigin
  obtain ⟨htree, hother⟩ := normalize_eq_iff_regrouped hnone hbehind
  refine ⟨hregrouped, hsame.1 hregrouped, ?_⟩
  rw [← hother, htree]
  decide +kernel

end TagQuery
