import TagQuery.Proofs.Command.Frame
import TagQuery.Proofs.Except

/-!
# What tasks give

On a machine, a task that only reads gives a result and leaves the machine as it is.  Its result is that
of the functions that the task is made of, whatever happened before, and a command prints such a result,
or fails and prints nothing:

    (canonical text).Gives w ((normalize text).mapError .filter)                     (gives_canonical)
    (ofCommand o (.ofTree none)).Prints (w.withInput stored)
      ((fetched stored).map (Report.filterOfTree o))                                 (prints_ofTree)
-/

namespace TagQuery

/-- The bytes of a text stand for it. -/
theorem textOf_toUTF8 (text : String) : textOf text.toUTF8 = .ok text := by
  have hbytes : String.fromUTF8? text.toUTF8 = some text := by
    unfold String.fromUTF8?
    rw [String.toUTF8_eq_toByteArray, dif_pos text.isValidUTF8]
    rfl
  rw [textOf, hbytes]

/-- What the text of a tree is fetched as: its filter, in canonical form. -/
def fetched (stored : String) : Except Failure String := do
  let t ← (Tree.ofText stored).mapError .decode
  let f ← t.read.mapError .filter
  return f.text

/-- The machine with a text on standard input. -/
def Machine.withInput (w : Machine) (text : String) : Machine :=
  { w with input := text.toUTF8 }

namespace Task

variable {α β ε : Type} {w : Machine} {t : Task (StateM Machine) α} {k : α → Task (StateM Machine) β}

/-- The result and the output of a command that prints this, or fails with this and prints nothing. -/
inductive Printed : Except Failure String → Except Failure Unit → String → Prop where
  | ok (text : String) : Printed (.ok text) (.ok ()) text
  | error (e : Failure) : Printed (.error e) (.error e) ""

/-- The command prints this, or fails with this and prints nothing, and leaves the machine as it is. -/
def Prints (t : Task (StateM Machine) Unit) (w : Machine) (r : Except Failure String) : Prop :=
  t.Ends w fun r' text w' => Printed r r' text ∧ w' = w

theorem Prints.unique {t : Task (StateM Machine) Unit} {r r' : Except Failure String} (h : t.Prints w r)
    (h' : t.Prints w r') : r = r' := by
  obtain ⟨_, _, text, _, hrun, hprinted, -⟩ := h ⟨[], ""⟩
  obtain ⟨_, _, text', _, hrun', hprinted', -⟩ := h' ⟨[], ""⟩
  have hresult := congrArg (fun x => x.1.1) (hrun.symm.trans hrun')
  have houtput := congrArg (fun x => x.1.2.output) (hrun.symm.trans hrun')
  simp only [String.empty_append] at hresult houtput
  cases hprinted <;> cases hprinted' <;> simp_all

theorem Prints.congr {t : Task (StateM Machine) Unit} {r r' : Except Failure String} (same : r = r')
    (h : t.Prints w r) : t.Prints w r' :=
  same ▸ h

/-! ## Steps -/

theorem prints_print (text : String) : (print text : Task (StateM Machine) Unit).Prints w (.ok text) :=
  ends_print ⟨.ok text, rfl⟩

theorem Gives.bind_prints {k : α → Task (StateM Machine) Unit} {r : Except Failure α}
    {g : α → Except Failure String} (h : t.Gives w r) (next : ∀ a, (k a).Prints w (g a)) :
    (t >>= k).Prints w (r >>= g) := by
  refine h.ends_bind ?_ ?_
  · rintro e rfl
    exact ⟨.error e, rfl⟩
  · rintro a rfl
    exact next a

/-! ## Input -/

theorem gives_standardInput :
    (standardInput : Task (StateM Machine) String).Gives w ((textOf w.input).mapError .access) :=
  (gives_ask rfl).bind fun bytes => gives_need .access (textOf bytes)

theorem gives_filterText {text : String} (h : text ≠ "-") :
    (filterText (some text) : Task (StateM Machine) String).Gives w (.ok text) := by
  show (if text = "-" then filterText.trimmed else pure text : Task (StateM Machine) String).Gives w _
  rw [if_neg h]
  exact gives_pure text

/-! ## Filters and trees -/

theorem gives_parse (text : String) :
    (parse text : Task (StateM Machine) Filter).Gives w ((Filter.read text).mapError .filter) := by
  refine .congr (bind_pure _) ?_
  exact (gives_need .filter (Filter.read text)).bind fun f => (gives_tell _).bind fun _ => gives_pure f

theorem gives_treeOf (f : Filter) : (treeOf f : Task (StateM Machine) Tree).Gives w (.ok f.toTree) :=
  (gives_tell (.treeBuilt f.toTree.nodeCount)).bind fun _ => gives_pure f.toTree

theorem gives_filterOf (t : Tree) :
    (filterOf t : Task (StateM Machine) Filter).Gives w (t.read.mapError .filter) := by
  unfold filterOf Tree.read
  cases t.toFilter with
  | ok f => exact (gives_tell (.treeRead t.nodeCount)).bind fun _ => gives_pure f
  | error e =>
    dsimp only
    split
    · exact (gives_pure ()).bind fun _ => gives_throw (.filter (.shape _))
    · exact (gives_tell (.treeNotRead e)).bind fun _ => gives_throw (.filter (.shape e))

theorem gives_canonical (text : String) :
    (canonical text : Task (StateM Machine) String).Gives w ((normalize text).mapError .filter) := by
  refine .congr ?_ ((gives_parse text).bind fun f => (gives_treeOf f).bind fun t =>
    (gives_filterOf t).bind fun g => (gives_tell _).bind fun _ => gives_pure g.text)
  unfold normalize Filter.canonical
  rw [Except.mapError_bind]
  simp only [Except.ok_bind, Except.mapError_bind]
  rfl

/-! ## Commands -/

variable {text : String}

theorem prints_normalize (o : Manner) (h : text ≠ "-") :
    (ofCommand o (.normalize (some text)) : Task (StateM Machine) Unit).Prints w
      (((normalize text).mapError .filter).map (Report.filter o text)) := by
  refine .congr ?_ ((gives_filterText h).bind_prints fun input =>
    (gives_canonical input).bind_prints fun c => prints_print (Report.filter o input c))
  rw [Except.ok_bind, Except.map_eq_bind]

theorem prints_toTree (o : Manner) (compact : Bool) (h : text ≠ "-") :
    (ofCommand o (.toTree (some text) compact) : Task (StateM Machine) Unit).Prints w
      (((Filter.read text).mapError .filter).map fun f => Report.tree o compact f.toTree) := by
  refine .congr ?_ ((gives_filterText h).bind_prints fun input => (gives_parse input).bind_prints fun f =>
    (gives_treeOf f).bind_prints fun t => (gives_tell _).bind_prints fun _ =>
      prints_print (Report.tree o compact t))
  simp only [Except.ok_bind, Except.map_eq_bind]

/-- A tree that stands on standard input. -/
theorem prints_ofTree (o : Manner) (stored : String) :
    (ofCommand o (.ofTree none) : Task (StateM Machine) Unit).Prints (w.withInput stored)
      ((fetched stored).map (Report.filterOfTree o)) := by
  refine .congr ?_ (gives_standardInput.bind_prints fun stored =>
    (gives_need .decode (Tree.ofText stored)).bind_prints fun t => (gives_tell _).bind_prints fun _ =>
      (gives_filterOf t).bind_prints fun f => prints_print (Report.filterOfTree o f.text))
  show (textOf stored.toUTF8).mapError Failure.access >>= _ = _
  rw [textOf_toUTF8]
  show Except.ok stored >>= _ = _
  unfold fetched
  simp only [Except.ok_bind, Except.map_eq_bind, bind_assoc]
  rfl

end Task

end TagQuery
