import TagQuery.Command.Run
import TagQuery.Proofs.Except

/-!
# What tasks leave alone

`t.Ends w Q` says of a task on the system `w` that its result, what it prints and the system behind it
are as `Q` says, whatever came before.  What a task does one after the other is told by one rule
(`Ends.bind`).

A task changes a system only through the questions that it asks.  A relation between the system before
and after that the reading questions keep (`KeptByReading`) is kept by every command but `set`, whether
the command fails or not, and a command that fails has printed nothing:

    KeptByReading R → (∀ key word, c ≠ .set key word) → (ofCommand m c).PrintsLast R  (printsLast_ofCommand)
    KeptByReading R → (∀ o key word, Request.ofArguments words ≠ .run o (.set key word)) →
      R w ((run words).run w).2 ∧ …                                                             (keeps_run)
-/

namespace TagQuery

/-! ## Relations that questions keep -/

namespace Host

variable {W α β : Type} {R : W → W → Prop}

/-- Whatever a question is answered, the system before and after are related. -/
def Keeps (R : W → W → Prop) (question : StateM W α) : Prop :=
  ∀ w, R w (question.run w).2

theorem keeps_pure (refl : ∀ w, R w w) (a : α) : Keeps R (pure a : StateM W α) :=
  refl

theorem keeps_bind {first : StateM W α} {next : α → StateM W β} (trans : ∀ {u v w}, R u v → R v w → R u w)
    (hfirst : Keeps R first) (hnext : ∀ a, Keeps R (next a)) : Keeps R (first >>= next) :=
  fun w => trans (hfirst w) (hnext _ _)

section

variable [Host (StateM W)] (refl : ∀ w, R w w) (trans : ∀ {u v w}, R u v → R v w → R u w)

include refl trans

theorem keeps_unlessDirectory {path : String} (e : AccessError)
    (kind : Keeps R (Host.kindOf path : StateM W (Option Kind))) :
    Keeps R (unlessDirectory path e : StateM W (Except AccessError Unit)) := by
  refine keeps_bind trans kind fun found => ?_
  split <;> exact keeps_pure refl _

/-- Directories are made one by one. -/
theorem keeps_makeDirectories {paths : List String}
    (kind : ∀ path ∈ paths, Keeps R (Host.kindOf path : StateM W (Option Kind)))
    (make : ∀ path ∈ paths, Keeps R (Host.makeDirectory path : StateM W (Except AccessError Unit))) :
    Keeps R (makeDirectories paths : StateM W (Except AccessError Unit)) := by
  induction paths with
  | nil => exact keeps_pure refl _
  | cons path outer ih =>
    have hkind := kind path (by simp)
    have hmake := make path (by simp)
    have inner := ih (fun q hq => kind q (by simp [hq])) fun q hq => make q (by simp [hq])
    refine keeps_bind trans hmake fun made => ?_
    split
    · exact keeps_pure refl _
    · refine keeps_bind trans inner fun made => ?_
      split
      · exact keeps_pure refl _
      · refine keeps_bind trans hmake fun made => ?_
        split
        · exact keeps_pure refl _
        · exact keeps_unlessDirectory refl trans _ hkind
    · exact keeps_unlessDirectory refl trans _ hkind

end

end Host

namespace Task

variable {W α β ε : Type}

/-! ## Running a task on a system -/

/-- The result of a task on a system. -/
def result (t : Task (StateM W) α) (w : W) : Except Failure α :=
  ((t.run.run ⟨[], ""⟩).run w).1.1

theorem run_bind {t : Task (StateM W) α} {k : α → Task (StateM W) β} (trace : Trace) (w : W) :
    ((t >>= k).run.run trace).run w
      = match (t.run.run trace).run w with
        | ((.ok a, later), w') => ((k a).run.run later).run w'
        | ((.error e, later), w') => ((.error e, later), w') := by
  rw [ExceptT.run_bind, StateT.run_bind, StateT.run_bind]
  show (match (t.run.run trace).run w with | (p, s) => _ : Id _) = _
  rcases (t.run.run trace).run w with ⟨⟨r, later⟩, w'⟩
  cases r <;> rfl

/-- The task ends with a result, having printed a text, on a system, of which the predicate holds. -/
def Ends (t : Task (StateM W) α) (w : W) (Q : Except Failure α → String → W → Prop) : Prop :=
  ∀ trace : Trace, ∃ r events text w',
    (t.run.run trace).run w = ((r, ⟨events, trace.output ++ text⟩), w') ∧ Q r text w'

section

variable {w : W} {t : Task (StateM W) α} {k : α → Task (StateM W) β}
  {P Q : Except Failure α → String → W → Prop} {S : Except Failure β → String → W → Prop}

theorem Ends.imp (h : t.Ends w P) (imp : ∀ {r text w'}, P r text w' → Q r text w') : t.Ends w Q := by
  intro trace
  obtain ⟨r, events, text, w', hrun, hP⟩ := h trace
  exact ⟨r, events, text, w', hrun, imp hP⟩

theorem ends_pure {a : α} (h : Q (.ok a) "" w) : (pure a : Task (StateM W) α).Ends w Q :=
  fun trace => ⟨.ok a, trace.events, "", w, by rw [String.append_empty]; rfl, h⟩

theorem ends_throw {e : Failure} (h : Q (.error e) "" w) : (throw e : Task (StateM W) α).Ends w Q :=
  fun trace => ⟨.error e, trace.events, "", w, by rw [String.append_empty]; rfl, h⟩

theorem ends_ask {question : StateM W α} (h : Q (.ok (question.run w).1) "" (question.run w).2) :
    (ask question).Ends w Q :=
  fun trace => ⟨_, trace.events, "", _, by rw [String.append_empty]; rfl, h⟩

theorem ends_tell {e : Event} {Q : Except Failure Unit → String → W → Prop} (h : Q (.ok ()) "" w) :
    (tell e : Task (StateM W) Unit).Ends w Q :=
  fun trace => ⟨.ok (), trace.events ++ [e], "", w, by rw [String.append_empty]; rfl, h⟩

theorem ends_print {text : String} {Q : Except Failure Unit → String → W → Prop} (h : Q (.ok ()) text w) :
    (print text : Task (StateM W) Unit).Ends w Q :=
  fun trace => ⟨.ok (), trace.events, text, w, rfl, h⟩

/-- What follows a task goes on with its result, on the system behind it, and prints behind it. -/
theorem Ends.bind (first : t.Ends w P) (failed : ∀ {e text w'}, P (.error e) text w' → S (.error e) text w')
    (next : ∀ {a text w'}, P (.ok a) text w' → (k a).Ends w' fun r more w'' => S r (text ++ more) w'') :
    (t >>= k).Ends w S := by
  intro trace
  obtain ⟨r, events, text, w', hrun, hP⟩ := first trace
  rw [run_bind, hrun]
  cases r with
  | error e => exact ⟨.error e, events, text, w', rfl, failed hP⟩
  | ok a =>
    obtain ⟨r, later, more, w'', hrest, hS⟩ := next hP ⟨events, trace.output ++ text⟩
    exact ⟨r, later, text ++ more, w'', by rw [← String.append_assoc]; exact hrest, hS⟩

/-- What follows a question goes on with the answer. -/
theorem ends_bind_ask {question : StateM W α} {a : α} {w' : W} (answer : question.run w = (a, w'))
    (next : (k a).Ends w' S) : (ask question >>= k).Ends w S := by
  intro trace
  rw [run_bind]
  show ∃ r events text w', ((k (question.run w).1).run.run trace).run (question.run w).2 = _ ∧ _
  rw [answer]
  exact next trace

end

/-! ## Tasks that give a result -/

/-- The task gives this result, prints nothing, and leaves the system as it is. -/
def Gives (t : Task (StateM W) α) (w : W) (r : Except Failure α) : Prop :=
  t.Ends w fun r' text w' => r' = r ∧ text = "" ∧ w' = w

section

variable {w : W} {t : Task (StateM W) α} {k : α → Task (StateM W) β}

theorem Gives.congr {r r' : Except Failure α} (same : r = r') (h : t.Gives w r) : t.Gives w r' :=
  same ▸ h

theorem Gives.result_eq {r : Except Failure α} (h : t.Gives w r) : t.result w = r := by
  obtain ⟨_, _, _, _, hrun, rfl, -, -⟩ := h ⟨[], ""⟩
  rw [result, hrun]

theorem gives_pure (a : α) : (pure a : Task (StateM W) α).Gives w (.ok a) :=
  ends_pure ⟨rfl, rfl, rfl⟩

theorem gives_throw (e : Failure) : (throw e : Task (StateM W) α).Gives w (.error e) :=
  ends_throw ⟨rfl, rfl, rfl⟩

/-- What goes on after a task that gives a result starts with that, on the same system. -/
theorem Gives.ends_bind {r : Except Failure α} {Q : Except Failure β → String → W → Prop}
    (h : t.Gives w r) (failed : ∀ e, r = .error e → Q (.error e) "" w)
    (next : ∀ a, r = .ok a → (k a).Ends w Q) : (t >>= k).Ends w Q := by
  refine Ends.bind h ?_ ?_
  · rintro e text w' ⟨rfl, rfl, rfl⟩
    exact failed e rfl
  · rintro a text w' ⟨rfl, rfl, rfl⟩
    simpa only [String.empty_append] using next a rfl

theorem Gives.bind {r : Except Failure α} {g : α → Except Failure β} (h : t.Gives w r)
    (next : ∀ a, (k a).Gives w (g a)) : (t >>= k).Gives w (r >>= g) := by
  refine h.ends_bind ?_ ?_
  · rintro e rfl
    exact ⟨rfl, rfl, rfl⟩
  · rintro a rfl
    exact next a

theorem gives_tell (e : Event) : (tell e : Task (StateM W) Unit).Gives w (.ok ()) :=
  ends_tell ⟨rfl, rfl, rfl⟩

theorem gives_need (failure : ε → Failure) (r : Except ε α) :
    (need failure r : Task (StateM W) α).Gives w (r.mapError failure) := by
  cases r with
  | ok a => exact gives_pure a
  | error e => exact gives_throw (failure e)

/-- A question that leaves the system as it is. -/
theorem gives_ask {question : StateM W α} {a : α} (h : question.run w = (a, w)) :
    (ask question).Gives w (.ok a) :=
  ends_ask (by rw [h]; exact ⟨rfl, rfl, rfl⟩)

end

/-! ## Relations that tasks keep -/

/-- Whatever a run of the task gives, it prints nothing, and the system before and after are related. -/
def Keeps (R : W → W → Prop) (t : Task (StateM W) α) : Prop :=
  ∀ w, t.Ends w fun _ text w' => text = "" ∧ R w w'

/-- A run of the task that fails prints nothing, and in any case the system before and after are related. -/
def PrintsLast (R : W → W → Prop) (t : Task (StateM W) α) : Prop :=
  ∀ w, t.Ends w fun r text w' => (∀ e, r = .error e → text = "") ∧ R w w'

/-- The relation holds along questions that only read. -/
structure KeptByReading [Host (StateM W)] (R : W → W → Prop) : Prop where
  refl : ∀ w, R w w
  trans : ∀ {u v w}, R u v → R v w → R u w
  variableOf : ∀ name, Host.Keeps R (Host.variableOf name : StateM W (Option String))
  accountHome : Host.Keeps R (Host.accountHome : StateM W (Option String))
  input : Host.Keeps R (Host.input : StateM W ByteArray)
  kindOf : ∀ path, Host.Keeps R (Host.kindOf path : StateM W (Option Kind))
  read : ∀ path, Host.Keeps R (Host.read path : StateM W (Except AccessError ByteArray))

/-- The second system is reached from the first by reading alone. -/
def Untouched [Host (StateM W)] (w w' : W) : Prop :=
  ∀ R, KeptByReading R → R w w'

theorem keptByReading_untouched [Host (StateM W)] : KeptByReading (Untouched (W := W)) where
  refl w _ kept := kept.refl w
  trans first next R kept := kept.trans (first R kept) (next R kept)
  variableOf name w _ kept := kept.variableOf name w
  accountHome w _ kept := kept.accountHome w
  input w _ kept := kept.input w
  kindOf path w _ kept := kept.kindOf path w
  read path w _ kept := kept.read path w

section

variable {R : W → W → Prop} {w : W} {t : Task (StateM W) α} {k : α → Task (StateM W) β}
  {Q : Except Failure β → String → W → Prop}

theorem keeps_ask {question : StateM W α} (h : Host.Keeps R question) : (ask question).Keeps R :=
  fun w => ends_ask ⟨rfl, h w⟩

/-- Behind a task that prints nothing, all is printed by what follows it. -/
theorem Keeps.ends_bind (first : t.Keeps R) (failed : ∀ {e w'}, R w w' → Q (.error e) "" w')
    (next : ∀ {a w'}, R w w' → (k a).Ends w' Q) : (t >>= k).Ends w Q := by
  refine (first w).bind ?_ ?_
  · rintro e text w' ⟨rfl, h⟩
    exact failed h
  · rintro a text w' ⟨rfl, h⟩
    simpa only [String.empty_append] using next h

end

section

variable [Host (StateM W)] {R : W → W → Prop} {t : Task (StateM W) α}
  {k : α → Task (StateM W) β} (kept : KeptByReading R)

include kept

theorem keeps_pure (a : α) : (pure a : Task (StateM W) α).Keeps R :=
  fun w => ends_pure ⟨rfl, kept.refl w⟩

theorem keeps_throw (e : Failure) : (throw e : Task (StateM W) α).Keeps R :=
  fun w => ends_throw ⟨rfl, kept.refl w⟩

theorem keeps_tell (e : Event) : (tell e : Task (StateM W) Unit).Keeps R :=
  fun w => ends_tell ⟨rfl, kept.refl w⟩

theorem keeps_bind (first : t.Keeps R) (next : ∀ a, (k a).Keeps R) : (t >>= k).Keeps R := by
  refine fun w => first.ends_bind (fun h => ⟨rfl, h⟩) fun {a w'} h => (next a w').imp ?_
  rintro r text w'' ⟨rfl, h'⟩
  exact ⟨rfl, kept.trans h h'⟩

theorem keeps_need (failure : ε → Failure) (r : Except ε α) :
    (need failure r : Task (StateM W) α).Keeps R := by
  cases r with
  | ok a => exact keeps_pure kept a
  | error e => exact keeps_throw kept (failure e)

theorem printsLast_print (text : String) : (print text : Task (StateM W) Unit).PrintsLast R :=
  fun w => ends_print ⟨fun _ h => (nomatch h), kept.refl w⟩

/-- What reads may come before what prints in the end. -/
theorem printsLast_bind (first : t.Keeps R) (next : ∀ a, (k a).PrintsLast R) : (t >>= k).PrintsLast R := by
  refine fun w => first.ends_bind (fun h => ⟨fun _ _ => rfl, h⟩) fun {a w'} h => (next a w').imp ?_
  rintro r text w'' ⟨silent, h'⟩
  exact ⟨silent, kept.trans h h'⟩

/-! ## Input -/

theorem keeps_standardInput : (standardInput : Task (StateM W) String).Keeps R :=
  keeps_bind kept (keeps_ask kept.input) fun _ => keeps_need kept _ _

theorem keeps_trimmed : (filterText.trimmed : Task (StateM W) String).Keeps R :=
  keeps_bind kept (keeps_standardInput kept) fun _ => keeps_pure kept _

theorem keeps_filterText (argument : Option String) :
    (filterText argument : Task (StateM W) String).Keeps R := by
  unfold filterText
  split
  · split
    · exact keeps_trimmed kept
    · exact keeps_pure kept _
  · exact keeps_trimmed kept

theorem keeps_treeText (file : Option String) : (treeText file : Task (StateM W) String).Keeps R := by
  unfold treeText
  split
  · split
    · exact keeps_standardInput kept
    · exact keeps_bind kept (keeps_ask (kept.read _)) fun _ =>
        keeps_bind kept (keeps_need kept _ _) fun _ => keeps_need kept _ _
  · exact keeps_standardInput kept

/-! ## Filters and trees -/

theorem keeps_parse (text : String) : (parse text : Task (StateM W) Filter).Keeps R :=
  keeps_bind kept (keeps_need kept _ _) fun _ =>
    keeps_bind kept (keeps_tell kept _) fun _ => keeps_pure kept _

theorem keeps_treeOf (f : Filter) : (treeOf f : Task (StateM W) Tree).Keeps R :=
  keeps_bind kept (keeps_tell kept _) fun _ => keeps_pure kept _

theorem keeps_filterOf (t : Tree) : (filterOf t : Task (StateM W) Filter).Keeps R := by
  unfold filterOf
  split
  · exact keeps_bind kept (keeps_tell kept _) fun _ => keeps_pure kept _
  · split
    · exact keeps_throw kept (.filter (.shape (.tooLarge _)))
    · exact keeps_bind kept (keeps_tell kept _) fun _ => keeps_throw kept (.filter (.shape _))

theorem keeps_canonical (text : String) : (canonical text : Task (StateM W) String).Keeps R :=
  keeps_bind kept (keeps_parse kept _) fun _ => keeps_bind kept (keeps_treeOf kept _) fun _ =>
    keeps_bind kept (keeps_filterOf kept _) fun _ =>
      keeps_bind kept (keeps_tell kept _) fun _ => keeps_pure kept _

/-! ## Settings -/

theorem keeps_homeDirectory : (homeDirectory : Task (StateM W) (Option String)).Keeps R := by
  refine keeps_bind kept (keeps_ask (kept.variableOf _)) fun home => ?_
  split
  · split
    · exact keeps_ask kept.accountHome
    · exact keeps_pure kept _
  · exact keeps_ask kept.accountHome

theorem keeps_settingsPath : (settingsPath : Task (StateM W) String).Keeps R := by
  refine keeps_bind kept (keeps_ask (kept.variableOf _)) fun path => ?_
  split
  · exact keeps_pure kept _
  · refine keeps_bind kept (keeps_ask (kept.variableOf _)) fun directory => ?_
    split
    · exact keeps_pure kept _
    · refine keeps_bind kept (keeps_homeDirectory kept) fun home => ?_
      split
      · exact keeps_pure kept _
      · exact keeps_throw kept _

theorem keeps_isPresent (path : String) : (isPresent path : Task (StateM W) Bool).Keeps R :=
  keeps_bind kept (keeps_ask (kept.kindOf _)) fun _ => keeps_pure kept _

theorem keeps_loadSettings : (loadSettings : Task (StateM W) Settings).Keeps R := by
  refine keeps_bind kept (keeps_settingsPath kept) fun path =>
    keeps_bind kept (keeps_isPresent kept path) fun present => ?_
  split
  · refine keeps_bind kept (keeps_ask (kept.read _)) fun found =>
      keeps_bind kept (keeps_need kept _ _) fun text => ?_
    split
    · exact keeps_bind kept (keeps_tell kept _) fun _ => keeps_pure kept _
    · exact keeps_throw kept _
  · exact keeps_bind kept (keeps_tell kept _) fun _ => keeps_pure kept _

/-! ## Commands -/

/-- Every command but `set` only reads, and prints when nothing can fail any more. -/
theorem printsLast_ofCommand (m : Manner) {c : Command} (reads : ∀ key word, c ≠ .set key word) :
    (ofCommand m c : Task (StateM W) Unit).PrintsLast R := by
  cases c with
  | parse argument explain =>
    exact printsLast_bind kept (keeps_filterText kept _) fun _ =>
      printsLast_bind kept (keeps_parse kept _) fun _ => printsLast_print kept _
  | normalize argument =>
    exact printsLast_bind kept (keeps_filterText kept _) fun _ =>
      printsLast_bind kept (keeps_canonical kept _) fun _ => printsLast_print kept _
  | toTree argument compact =>
    exact printsLast_bind kept (keeps_filterText kept _) fun _ =>
      printsLast_bind kept (keeps_parse kept _) fun _ => printsLast_bind kept (keeps_treeOf kept _) fun _ =>
        printsLast_bind kept (keeps_tell kept _) fun _ => printsLast_print kept _
  | ofTree file =>
    exact printsLast_bind kept (keeps_treeText kept _) fun _ =>
      printsLast_bind kept (keeps_need kept _ _) fun _ => printsLast_bind kept (keeps_tell kept _) fun _ =>
        printsLast_bind kept (keeps_filterOf kept _) fun _ => printsLast_print kept _
  | check argument =>
    exact printsLast_bind kept (keeps_filterText kept _) fun _ =>
      printsLast_bind kept (keeps_canonical kept _) fun _ => printsLast_print kept _
  | showSettings =>
    exact printsLast_bind kept (keeps_loadSettings kept) fun _ =>
      printsLast_bind kept (keeps_settingsPath kept) fun _ =>
        printsLast_bind kept (keeps_isPresent kept _) fun _ => printsLast_print kept _
  | set key word => exact absurd rfl (reads key word)
  | showPath =>
    exact printsLast_bind kept (keeps_settingsPath kept) fun _ =>
      printsLast_bind kept (keeps_isPresent kept _) fun _ => printsLast_print kept _
  | completions shell => exact printsLast_print kept _
  | overview => exact printsLast_print kept _

theorem printsLast_withSettings (o : Options) {c : Command} (reads : ∀ key word, c ≠ .set key word) :
    (withSettings o c : Task (StateM W) Unit).PrintsLast R :=
  printsLast_bind kept (keeps_loadSettings kept) fun _ =>
    printsLast_bind kept (keeps_ask (kept.variableOf _)) fun _ => printsLast_ofCommand kept _ reads

end

end Task

/-! ## Runs -/

theorem Failure.exitStatus_ne_zero (f : Failure) : f.exitStatus ≠ 0 := by
  cases f <;> simp [Failure.exitStatus]

section

variable {W : Type} [Host (StateM W)] {R : W → W → Prop} {words : List String} {w : W}

/-- The outcome of a run of a task, and the system behind it. -/
theorem run_of_request {o : Options} {c : Command} (h : Request.ofArguments words = .run o c) :
    (run words : StateM W Outcome).run w
      = (match ((Task.withSettings o c : Task (StateM W) Unit).run.run ⟨[], ""⟩).run w with
        | ((r, trace), w') =>
          (match (Host.variableOf "RUST_LOG" : StateM W (Option String)).run w' with
          | (rules, w'') => (.of o (logFilterOf o rules) r trace, w''))) := by
  unfold run
  rw [h]
  rfl

/-- A run is as the task that it runs: it fails as the task does, prints what the task prints, and
leaves the system behind that the task does, but for one more question. -/
theorem run_of_ends {o : Options} {c : Command} {Q : Except Failure Unit → String → W → Prop}
    (h : Request.ofArguments words = .run o c)
    (ends : (Task.withSettings o c : Task (StateM W) Unit).Ends w Q) :
    ∃ r text w', Q r text w'
      ∧ (((run words : StateM W Outcome).run w).1.exitStatus = 0 ↔ r = .ok ())
      ∧ ((run words : StateM W Outcome).run w).1.output = text
      ∧ ((run words : StateM W Outcome).run w).2
        = ((Host.variableOf "RUST_LOG" : StateM W (Option String)).run w').2 := by
  obtain ⟨r, events, text, w', hrun, hQ⟩ := ends ⟨[], ""⟩
  refine ⟨r, text, w', hQ, ?_⟩
  rw [run_of_request h, hrun]
  cases r with
  | ok done => exact ⟨iff_of_true rfl rfl, String.empty_append, rfl⟩
  | error f => exact ⟨iff_of_false f.exitStatus_ne_zero nofun, String.empty_append, rfl⟩

/-- Every run but one of `set` keeps what reading keeps, and prints nothing if it fails. -/
theorem keeps_run (kept : Task.KeptByReading R)
    (reads : ∀ o key word, Request.ofArguments words ≠ .run o (.set key word)) :
    R w ((run words : StateM W Outcome).run w).2
      ∧ (((run words : StateM W Outcome).run w).1.exitStatus ≠ 0 →
        ((run words : StateM W Outcome).run w).1.output = "") := by
  cases h : Request.ofArguments words with
  | run o c =>
    have ends := Task.printsLast_withSettings kept o (c := c)
      (fun key word hc => reads o key word (hc ▸ h)) w
    obtain ⟨r, text, w', ⟨silent, hR⟩, hexit, houtput, hsystem⟩ := run_of_ends h ends
    rw [hsystem, houtput]
    refine ⟨kept.trans hR (kept.variableOf _ _), fun failed => ?_⟩
    cases r with
    | ok done => exact absurd (hexit.2 rfl) failed
    | error f => exact silent f rfl
  | version program =>
    unfold run
    rw [h]
    exact ⟨kept.refl w, fun failed => absurd rfl failed⟩
  | help =>
    unfold run
    rw [h]
    exact ⟨kept.refl w, fun failed => absurd rfl failed⟩
  | refuse e =>
    unfold run
    rw [h]
    exact ⟨kept.refl w, fun _ => rfl⟩

end

end TagQuery
