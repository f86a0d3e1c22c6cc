import TagQuery.Proofs.Command.Frame
import TagQuery.Proofs.Disk.Walks

/-!
# Runs touch the settings file only

A `View` tells the files of a system from the rest, and is honest where each question to the system does
to files what its name says, or fails and does nothing.  Then a failed run leaves all files alone and
prints nothing, and a successful one writes at most the file that the settings are in:

    t.Keeps v.Same → (∀ a w', v.Same w w' → (k a).Atomic v w') → (t >>= k).Atomic v w  (atomic_bind)
    (withSettings o c).Atomic v w                                                      (atomic_withSettings)

The view of a `Machine` is its disk.
-/

namespace TagQuery

/-- What is to be seen of a system from outside. -/
structure View (W Place : Type) where
  /-- The bytes of the file at a place. -/
  content : W → Place → Option ByteArray
  /-- The place that a path leads to. -/
  place : W → String → Option Place
  variableOf : W → String → Option String
  accountHome : W → Option String

namespace View

variable {W Place : Type} (v : View W Place)

/-- Both systems have the same environment. -/
structure SameEnvironment (w w' : W) : Prop where
  variableOf : v.variableOf w' = v.variableOf w
  accountHome : v.accountHome w' = v.accountHome w

/-- Both systems have the same files too. -/
structure Same (w w' : W) : Prop extends v.SameEnvironment w w' where
  content : v.content w' = v.content w

/-- Questions about the environment are answered from it, and only a write that succeeds changes a file:
the one that its path leads to. -/
structure Honest [Host (StateM W)] : Prop where
  variableOf : ∀ name w, (Host.variableOf name : StateM W (Option String)).run w = (v.variableOf w name, w)
  accountHome : ∀ w, (Host.accountHome : StateM W (Option String)).run w = (v.accountHome w, w)
  input : Host.Keeps v.Same (Host.input : StateM W ByteArray)
  kindOf : ∀ path, Host.Keeps v.Same (Host.kindOf path : StateM W (Option Kind))
  read : ∀ path, Host.Keeps v.Same (Host.read path : StateM W (Except AccessError ByteArray))
  makeDirectory : ∀ path, Host.Keeps v.Same (Host.makeDirectory path : StateM W (Except AccessError Unit))
  write_error : ∀ {path text w e w'},
    (Host.write path text : StateM W (Except AccessError Unit)).run w = (.error e, w') → v.Same w w'
  write_ok : ∀ {path text w w'},
    (Host.write path text : StateM W (Except AccessError Unit)).run w = (.ok (), w') →
      ∀ l, v.content w' l ≠ v.content w l → v.place w' path = some l

variable {v}

theorem Same.refl (w : W) : v.Same w w :=
  ⟨⟨rfl, rfl⟩, rfl⟩

theorem Same.trans {w₁ w₂ w₃ : W} (h : v.Same w₁ w₂) (h' : v.Same w₂ w₃) : v.Same w₁ w₃ :=
  ⟨⟨h'.variableOf.trans h.variableOf, h'.accountHome.trans h.accountHome⟩, h'.content.trans h.content⟩

end View

namespace View

variable {W Place : Type} (v : View W Place)

/-- The home directory that the environment decides on. -/
def homeDirectory (w : W) : Option String :=
  match v.variableOf w "HOME" with
  | some home => if home.isEmpty then v.accountHome w else some home
  | none => v.accountHome w

/-- The place of the settings that the environment decides on. -/
def settingsPath (w : W) : Except Failure String :=
  match v.variableOf w "TAGF_CONFIG" with
  | some path => .ok path
  | none =>
    match v.variableOf w "XDG_CONFIG_HOME" with
    | some directory => .ok (Task.settingsPath.inDirectory directory)
    | none =>
      match v.homeDirectory w with
      | some home => .ok (Task.settingsPath.inDirectory (Path.join home ".config"))
      | none => .error (.settings .noPlace)

end View

namespace Task

variable {W Place α β : Type} [Host (StateM W)] {v : View W Place} {w w' : W}

/-- Reading keeps files and environment. -/
theorem keptByReading_same (honest : v.Honest) : KeptByReading v.Same where
  refl := View.Same.refl
  trans := View.Same.trans
  variableOf name w := by
    rw [honest.variableOf]
    exact .refl w
  accountHome w := by
    rw [honest.accountHome]
    exact .refl w
  input := honest.input
  kindOf := honest.kindOf
  read := honest.read

/-! ## The place of the settings -/

theorem gives_variableOf (honest : v.Honest) (name : String) (w : W) :
    (ask (Host.variableOf name) : Task (StateM W) (Option String)).Gives w (.ok (v.variableOf w name)) :=
  gives_ask (honest.variableOf name w)

theorem gives_accountHome (honest : v.Honest) (w : W) :
    (ask Host.accountHome : Task (StateM W) (Option String)).Gives w (.ok (v.accountHome w)) :=
  gives_ask (honest.accountHome w)

theorem gives_homeDirectory (honest : v.Honest) (w : W) :
    (homeDirectory : Task (StateM W) (Option String)).Gives w (.ok (v.homeDirectory w)) := by
  refine (gives_variableOf honest "HOME" w).ends_bind (fun _ he => nomatch he) fun home hhome => ?_
  rw [View.homeDirectory, Except.ok.inj hhome]
  cases home with
  | none => exact gives_accountHome honest w
  | some home =>
    dsimp only
    split
    · exact gives_accountHome honest w
    · exact gives_pure (some home)

/-- The environment alone decides where the settings are. -/
theorem gives_view_settingsPath (honest : v.Honest) (w : W) :
    (settingsPath : Task (StateM W) String).Gives w (v.settingsPath w) := by
  refine (gives_variableOf honest "TAGF_CONFIG" w).ends_bind (fun _ he => nomatch he) fun path hpath => ?_
  rw [View.settingsPath, Except.ok.inj hpath]
  cases path with
  | some path => exact gives_pure path
  | none =>
    refine (gives_variableOf honest "XDG_CONFIG_HOME" w).ends_bind (fun _ he => nomatch he)
      fun directory hdirectory => ?_
    rw [Except.ok.inj hdirectory]
    cases directory with
    | some directory => exact gives_pure _
    | none =>
      refine (gives_homeDirectory honest w).ends_bind (fun _ he => nomatch he) fun home hhome => ?_
      rw [Except.ok.inj hhome]
      cases home with
      | some home => exact gives_pure _
      | none => exact gives_throw _

theorem result_eq_settingsPath (honest : v.Honest) (w : W) :
    (settingsPath : Task (StateM W) String).result w = v.settingsPath w :=
  (gives_view_settingsPath honest w).result_eq

theorem gives_settingsPath (honest : v.Honest) (w : W) :
    (settingsPath : Task (StateM W) String).Gives w (settingsPath.result w) :=
  .congr (result_eq_settingsPath honest w).symm (gives_view_settingsPath honest w)

theorem result_settingsPath (honest : v.Honest) (same : v.SameEnvironment w w') :
    (settingsPath : Task (StateM W) String).result w' = settingsPath.result w := by
  simp only [result_eq_settingsPath honest, View.settingsPath, View.homeDirectory, same.variableOf,
    same.accountHome]

/-! ## Tasks that fail without a trace -/

/-- A failure prints nothing and leaves the files of a system as they are, and a success changes at most
the one with the settings. -/
def Atomic (v : View W Place) (w : W) (t : Task (StateM W) α) : Prop :=
  t.Ends w fun r text w' =>
    (∀ e, r = .error e → text = "" ∧ v.Same w w')
      ∧ ∀ l, v.content w' l ≠ v.content w l →
        ∃ path, settingsPath.result w = .ok path ∧ v.place w' path = some l

/-- What only reads may come in front. -/
theorem atomic_bind (honest : v.Honest) {t : Task (StateM W) α} {k : α → Task (StateM W) β}
    (reads : t.Keeps v.Same) (next : ∀ a w', v.Same w w' → (k a).Atomic v w') : (t >>= k).Atomic v w := by
  refine reads.ends_bind (fun same => ?_) fun {a w'} same => (next a w' same).imp ?_
  · exact ⟨fun _ _ => ⟨rfl, same⟩, fun l changed => absurd (congrFun same.content l) changed⟩
  · rintro r text w'' ⟨failed, only⟩
    refine ⟨fun e he => ⟨(failed e he).1, same.trans (failed e he).2⟩, fun l changed => ?_⟩
    rw [← same.content] at changed
    obtain ⟨path, hpath, hplace⟩ := only l changed
    exact ⟨path, result_settingsPath honest same.toSameEnvironment ▸ hpath, hplace⟩

/-! ## Saving -/

/-- Saving prints nothing; it changes at most the file at the path, and none if it fails. -/
theorem ends_saveSettings (honest : v.Honest) (path : String) (s : Settings) (w : W) :
    (saveSettings path s : Task (StateM W) Unit).Ends w fun r text w' => text = ""
      ∧ (∀ e, r = .error e → v.Same w w')
      ∧ ∀ l, v.content w' l ≠ v.content w l → v.place w' path = some l := by
  have made : Host.Keeps v.Same (Host.makeParents path : StateM W (Except AccessError Unit)) :=
    Host.keeps_makeDirectories .refl .trans (fun _ _ => honest.kindOf _) fun _ _ => honest.makeDirectory _
  refine (keeps_ask made).ends_bind (fun same => ⟨rfl, fun _ _ => same, ?_⟩) fun {r w₁} same => ?_
  · exact fun l changed => absurd (congrFun same.content l) changed
  · refine (gives_need _ r).ends_bind (fun e he => ⟨rfl, fun _ _ => same, ?_⟩) fun _ _ => ?_
    · exact fun l changed => absurd (congrFun same.content l) changed
    · cases hwrite : (Host.write path s.text : StateM W (Except AccessError Unit)).run w₁ with
      | mk written w₂ =>
        refine ends_bind_ask hwrite ?_
        cases written with
        | error e =>
          have still := same.trans (honest.write_error hwrite)
          exact ends_throw ⟨rfl, fun _ _ => still,
            fun l changed => absurd (congrFun still.content l) changed⟩
        | ok done =>
          refine ends_pure ⟨rfl, fun e he => (nomatch he), fun l changed => honest.write_ok hwrite l ?_⟩
          rwa [same.content]

/-! ## Commands -/

theorem atomic_set (honest : v.Honest) (m : Manner) (key word : String) :
    (ofCommand m (.set key word) : Task (StateM W) Unit).Atomic v w := by
  have kept := keptByReading_same honest
  refine atomic_bind honest (keeps_loadSettings kept) fun s w₁ _ => ?_
  refine (gives_settingsPath honest w₁).ends_bind ?_ fun path hpath => ?_
  · exact fun _ _ => ⟨fun _ _ => ⟨rfl, .refl w₁⟩, fun l changed => absurd rfl changed⟩
  refine atomic_bind honest (keeps_need kept _ _) fun s' w₂ same => ?_
  have hpath₂ := (result_settingsPath honest same.toSameEnvironment).trans hpath
  refine (ends_saveSettings honest path s' w₂).bind ?_ ?_
  · rintro e text w₃ ⟨rfl, failed, only⟩
    exact ⟨fun _ _ => ⟨rfl, failed e rfl⟩, fun l changed => ⟨path, hpath₂, only l changed⟩⟩
  · rintro done text w₃ ⟨rfl, -, only⟩
    exact ends_print ⟨fun e he => (nomatch he), fun l changed => ⟨path, hpath₂, only l changed⟩⟩

theorem atomic_withSettings (honest : v.Honest) (o : Options) (key word : String) :
    (withSettings o (.set key word) : Task (StateM W) Unit).Atomic v w := by
  have kept := keptByReading_same honest
  exact atomic_bind honest (keeps_loadSettings kept) fun s w' _ =>
    atomic_bind honest (keeps_ask (kept.variableOf _)) fun refused w'' _ => atomic_set honest _ key word

end Task

/-! ## The view of a machine -/

namespace Machine

/-- The bytes of a file on a disk. -/
def contentAt (w : Machine) (l : Location) : Option ByteArray :=
  match w.disk.lookup l with
  | some (.file content) => some content
  | _ => none

/-- What is to be seen of a machine is what is on its disk. -/
def view : View Machine Location where
  content := contentAt
  place w path := (w.disk.resolve path).toOption
  variableOf w name := w.environment.lookup name
  accountHome w := w.accountHome

/-- What a change to the disk gives, and the machine behind it. -/
theorem run_onDisk (change : Disk → Except AccessError Disk) (w : Machine) :
    (onDisk change).run w
      = match change w.disk with
        | .ok disk => (.ok (), { w with disk })
        | .error e => (.error e, w) := by
  show (match change w.disk with | .ok disk => _ | .error e => _ : StateM Machine _).run w = _
  cases change w.disk <;> rfl

theorem contentAt_insert_of_ne {w : Machine} {l k : Location} (hne : k ≠ l) (h : w.disk.Free l)
    (e : Entry) : contentAt { w with disk := w.disk.insert l e h } k = contentAt w k := by
  rw [contentAt, Disk.lookup_insert_of_ne hne h, contentAt]

/-- A directory is made where nothing is. -/
theorem same_makeDirectory {w : Machine} {path : String} {disk : Disk}
    (h : w.disk.makeDirectory path = .ok disk) : view.Same w { w with disk } := by
  obtain ⟨l, free, -, hfree, rfl⟩ := Disk.makeDirectory_ok_iff.1 h
  refine ⟨⟨rfl, rfl⟩, funext fun k => ?_⟩
  show contentAt _ k = contentAt w k
  by_cases hk : k = l
  · subst hk
    simp [contentAt, Disk.lookup_insert_self free, hfree]
  · exact contentAt_insert_of_ne hk free .directory

/-- A file is written where its path leads to before and after. -/
theorem changed_write {w : Machine} {path text : String} {disk : Disk}
    (h : w.disk.write path text = .ok disk) {k : Location}
    (changed : contentAt { w with disk } k ≠ contentAt w k) :
    disk.resolve path = .ok k := by
  obtain ⟨-, l, free, hl, rfl⟩ := Disk.write_ok_iff.1 h
  by_cases hk : k = l
  · subst hk
    exact Disk.resolve_insert free hl
  · exact absurd (contentAt_insert_of_ne hk free _) changed

theorem honest_view : view.Honest where
  variableOf _ _ := rfl
  accountHome _ := rfl
  input _ := .refl _
  kindOf _ _ := .refl _
  read _ _ := .refl _
  makeDirectory path w := by
    show view.Same w ((onDisk fun d => d.makeDirectory path).run w).2
    rw [run_onDisk]
    split
    · next h => exact same_makeDirectory h
    · exact .refl w
  write_error := by
    intro path text w e w' h
    change (onDisk fun d => d.write path text).run w = _ at h
    rw [run_onDisk] at h
    split at h <;> cases h
    exact .refl w
  write_ok := by
    intro path text w w' h k changed
    change (onDisk fun d => d.write path text).run w = _ at h
    rw [run_onDisk] at h
    split at h <;> cases h
    next hwrite => exact congrArg Except.toOption (changed_write hwrite changed)

end Machine

/-! ## Runs -/

section

variable {W Place : Type} [Host (StateM W)] {v : View W Place}

/-- **Runs touch the settings file only.**  On every system whose questions do what they say, a run that
fails prints nothing and leaves every file as it is, and one that succeeds changes at most the file with
the settings, and only to set one of them. -/
theorem run_touches_only_settings (honest : v.Honest) (words : List String) (w : W) :
    match (run words : StateM W Outcome).run w with
    | (o, w') =>
      (o.exitStatus ≠ 0 → o.output = "" ∧ v.content w' = v.content w)
        ∧ (o.exitStatus = 0 → ∀ l, v.content w' l ≠ v.content w l →
          ∃ options key word path, Request.ofArguments words = .run options (.set key word)
            ∧ Task.settingsPath.result w = .ok path ∧ v.place w' path = some l) := by
  cases hrun : (run words : StateM W Outcome).run w with
  | mk o w₁ =>
    by_cases sets : ∃ options key word, Request.ofArguments words = .run options (.set key word)
    · obtain ⟨options, key, word, hset⟩ := sets
      obtain ⟨r, text, w', ⟨atomic, only⟩, hexit, houtput, hsystem⟩ :=
        run_of_ends hset (Task.atomic_withSettings (w := w) honest options key word)
      simp only [hrun, honest.variableOf] at hexit houtput hsystem
      subst houtput hsystem
      refine ⟨fun failed => ?_, fun _ l changed => ?_⟩
      · cases r with
        | ok done => exact absurd (hexit.2 rfl) failed
        | error f => exact ⟨(atomic f rfl).1, (atomic f rfl).2.content⟩
      · obtain ⟨path, hpath, hplace⟩ := only l changed
        exact ⟨options, key, word, path, hset, hpath, hplace⟩
    · obtain ⟨same, silent⟩ := keeps_run (w := w) (Task.keptByReading_same honest) fun o key word h =>
        sets ⟨o, key, word, h⟩
      rw [hrun] at same silent
      exact ⟨fun failed => ⟨silent failed, same.content⟩,
        fun _ l changed => absurd (congrFun same.content l) changed⟩

end

/-- A machine without files, and the path of its settings. -/
def bareMachine (path : String) : Machine :=
  ⟨.empty ["work"], ByteArray.empty, [("TAGF_CONFIG", path)], none⟩

/-- Where nothing is yet, setting a switch makes one file. -/
theorem run_touches_only_settings_color :
    Machine.view.Honest ∧
    match (run ["config", "set", "output.color", "on"] : StateM Machine Outcome).run
      (bareMachine "config.toml") with
    | (o, w') =>
      o.exitStatus = 0
        ∧ w'.contentAt ["work", "config.toml"] = some "version = 1\n\n[output]\ncolor = true\n".toUTF8
        ∧ ∀ l, w'.contentAt l ≠ (bareMachine "config.toml").contentAt l → l = ["work", "config.toml"] := by
  refine ⟨Machine.honest_view, by decide +kernel, by decide +kernel, fun l changed => ?_⟩
  have only := (run_touches_only_settings Machine.honest_view ["config", "set", "output.color", "on"]
    (bareMachine "config.toml")).2
  obtain ⟨_, _, _, path, _, hpath, hplace⟩ := only (by decide +kernel) l changed
  have hconfig : (Task.settingsPath : Task (StateM Machine) String).result (bareMachine "config.toml")
      = .ok "config.toml" := rfl
  cases hconfig.symm.trans hpath
  have place : ((((run ["config", "set", "output.color", "on"] : StateM Machine Outcome).run
      (bareMachine "config.toml")).2.disk.resolve "config.toml").toOption)
      = some ["work", "config.toml"] := by
    decide +kernel
  exact Option.some.inj (hplace.symm.trans place)

end TagQuery
