import TagQuery.Proofs.Command.Setting

/-!
# Settings over many runs

A session is a row of runs on one system, which keep the settings at the same path.  The input and the
environment may be others before each run, the files may not.  On a system that remembers what is at
that path (`View.Remembers`), the path is a store: what is loaded behind the session is what was loaded
before it, with the switches that were set, each of them to the state that it was set to last.

A save that fails can still have made the directories in front of the path.  So it must not be that these
directories bring something to a path where nothing was, as they may if it turns back (`Safe`).

    v.Remembers p → Settings.ofFound (Host.found w p) = .ok s → Safe w is →
      Settings.ofFound (Host.found (systemAfter w is) p) = .ok (s.assign (assignments w is))  (load_session)
-/

namespace TagQuery

/-! ## Sessions -/

section

variable {W Place : Type} [Host (StateM W)] {v : View W Place} {p : String}

/-- A run of a session: its words, and what happens to the input and the environment before it.  The
files stay as they are, and the settings are at the path. -/
structure Invocation (v : View W Place) (p : String) where
  words : List String
  prepare : W → W
  files : ∀ w, v.SameFiles p w (prepare w)
  place : ∀ w, Task.settingsPath.result (prepare w) = .ok p

namespace Invocation

/-- What the run leaves behind. -/
def run (i : Invocation v p) (w : W) : Outcome × W :=
  (TagQuery.run i.words : StateM W Outcome).run (i.prepare w)

/-- The key and the word of a run that sets a switch. -/
def setting? (i : Invocation v p) : Option (String × String) :=
  match Request.ofArguments i.words with
  | .run _ (.set key word) => some (key, word)
  | _ => none

/-- The switch that the run sets, and its state: the key and the word have to be known. -/
def assignment? (i : Invocation v p) : Option (Switch × Bool) := do
  let (key, word) ← i.setting?
  return (← Switch.ofName? key, ← Switch.stateOf? word)

/-- The switch that the run has set behind this outcome. -/
def assigned (i : Invocation v p) (o : Outcome) : Option (Switch × Bool) :=
  if o.exitStatus = 0 then i.assignment? else none

end Invocation

/-- The runs of a session with their outcomes. -/
def outcomes (w : W) : List (Invocation v p) → List (Invocation v p × Outcome)
  | [] => []
  | i :: is => (i, (i.run w).1) :: outcomes (i.run w).2 is

/-- The system behind a session. -/
def systemAfter (w : W) : List (Invocation v p) → W
  | [] => w
  | i :: is => systemAfter (i.run w).2 is

/-- The switches that a session sets, in the order of the runs that succeed. -/
def assignments (w : W) (is : List (Invocation v p)) : List (Switch × Bool) :=
  (outcomes w is).filterMap fun x => x.1.assigned x.2

/-- No run of the session that fails brings something to the path where nothing was. -/
def Safe (w : W) : List (Invocation v p) → Prop
  | [] => True
  | i :: is => ((i.run w).1.exitStatus ≠ 0 → Host.found w p = none → Host.found (i.run w).2 p = none)
      ∧ Safe (i.run w).2 is

end

/-! ## Switches -/

namespace Settings

/-- The settings with some switches set one by one. -/
def assign (s : Settings) (as : List (Switch × Bool)) : Settings :=
  as.foldl (fun s a => s.set a.1 a.2) s

@[simp] theorem version_set (s : Settings) (switch : Switch) (state : Bool) :
    (s.set switch state).version = s.version := by
  cases switch <;> rfl

theorem switch_set (s : Settings) (switch k : Switch) (state : Bool) :
    (s.set switch state).switch k = if k = switch then some state else s.switch k := by
  cases switch <;> cases k <;> rfl

theorem version_assign (s : Settings) (as : List (Switch × Bool)) : (s.assign as).version = s.version := by
  induction as generalizing s with
  | nil => rfl
  | cons a as ih => exact (ih _).trans (version_set s a.1 a.2)

/-- The last assignment to a switch counts. -/
theorem switch_assign (s : Settings) (as : List (Switch × Bool)) (k : Switch) :
    (s.assign as).switch k = (as.reverse.lookup k).or (s.switch k) := by
  induction as generalizing s with
  | nil => rfl
  | cons a as ih =>
    obtain ⟨switch, state⟩ := a
    have hstep : (s.assign ((switch, state) :: as)).switch k
        = ((s.set switch state).assign as).switch k := rfl
    rw [hstep, ih, switch_set, List.reverse_cons, List.lookup_append, Option.or_assoc, List.lookup_cons]
    by_cases hk : k = switch
    · simp [hk]
    · have hne : (k == switch) = false := by simpa using hk
      simp [hk, hne]

end Settings

/-! ## One run -/

section

variable {W Place : Type} [Host (StateM W)] {v : View W Place} {p : String} {w : W} {s : Settings}

namespace Invocation

variable {i : Invocation v p} {key word : String}

theorem load_prepare (remembers : v.Remembers p) (i : Invocation v p) (w : W) :
    (Task.loadSettings : Task (StateM W) Settings).result (i.prepare w)
      = Settings.ofFound (Host.found w p) := by
  rw [Task.result_loadSettings remembers (i.place w), (i.files w).found]

/-- What setting a switch makes of some settings. -/
theorem changed_eq (h : i.setting? = some (key, word)) (s : Settings) :
    (Task.changed s key word).toOption = i.assignment?.map fun a => s.set a.1 a.2 := by
  rw [assignment?, h, Task.changed]
  cases hswitch : Switch.ofName? key with
  | none => simp [hswitch, Except.toOption]
  | some switch => cases hstate : Switch.stateOf? word <;> simp [hswitch, hstate, Except.toOption]

theorem setting_of_run (remembers : v.Remembers p) (h : i.setting? = some (key, word)) (w : W) :
    ∃ r, Setting p key word (i.prepare w) r (i.run w).2 ∧ ((i.run w).1.exitStatus = 0 ↔ r = .ok ()) := by
  unfold setting? at h
  split at h
  · next hset =>
    cases h
    exact TagQuery.setting_of_run remembers hset (i.place w)
  · cases h

/-- A run that sets nothing only reads. -/
theorem untouched_of_run (h : i.setting? = none) (w : W) : Task.Untouched (i.prepare w) (i.run w).2 := by
  have reads : ∀ o key word, Request.ofArguments i.words ≠ .run o (.set key word) := by
    intro o key word hset
    rw [setting?, hset] at h
    cases h
  exact (keeps_run Task.keptByReading_untouched reads).1

/-- Where something is at the path, a run that fails leaves it there. -/
theorem found_of_failed (remembers : v.Remembers p) (failed : (i.run w).1.exitStatus ≠ 0)
    (there : Host.found w p ≠ none) : Host.found (i.run w).2 p = Host.found w p := by
  have hfound := (i.files w).found
  rw [← hfound] at there ⊢
  cases h : i.setting? with
  | none => exact (untouched_of_run h w).found remembers
  | some x =>
    obtain ⟨r, setting, hr⟩ := setting_of_run remembers h w
    cases r with
    | ok done => exact absurd (hr.2 rfl) failed
    | error f => exact setting.found_of_error remembers there

/-- A run that has set nothing leaves what is at the path, or nothing if nothing is. -/
theorem found_of_unassigned (remembers : v.Remembers p) (unassigned : i.assigned (i.run w).1 = none)
    (safe : (i.run w).1.exitStatus ≠ 0 → Host.found w p = none → Host.found (i.run w).2 p = none) :
    Host.found (i.run w).2 p = Host.found w p := by
  by_cases failed : (i.run w).1.exitStatus = 0
  · rw [assigned, if_pos failed] at unassigned
    cases h : i.setting? with
    | none => rw [(untouched_of_run h w).found remembers, (i.files w).found]
    | some x =>
      obtain ⟨r, setting, hr⟩ := setting_of_run remembers h w
      obtain rfl := hr.1 failed
      obtain ⟨s, s', -, change, -⟩ := setting.found_of_ok remembers
      have none_changed := changed_eq h s
      rw [change, unassigned] at none_changed
      cases none_changed
  · by_cases missing : Host.found w p = none
    · rw [missing]
      exact safe failed missing
    · exact found_of_failed remembers failed missing

/-- A run that has set a switch leaves the settings that were loaded, with the switch. -/
theorem found_of_assigned (remembers : v.Remembers p) {a : Switch × Bool}
    (h : i.assigned (i.run w).1 = some a) (load : Settings.ofFound (Host.found w p) = .ok s) :
    Host.found (i.run w).2 p = some (.ok (s.set a.1 a.2).text.toUTF8) := by
  unfold assigned at h
  split at h
  · next succeeded =>
    cases hx : i.setting? with
    | none => simp [assignment?, hx] at h
    | some x =>
      obtain ⟨r, setting, hr⟩ := setting_of_run remembers hx w
      obtain rfl := hr.1 succeeded
      obtain ⟨s₀, s', read, change, hfound⟩ := setting.found_of_ok remembers
      rw [(i.files w).found, load] at read
      obtain rfl := Except.ok.inj read
      have changed := changed_eq hx s
      rw [change, h] at changed
      rw [hfound, Option.some.inj changed]
  · cases h

/-- A run with a key or a word that is not known fails and only reads. -/
theorem run_refused (remembers : v.Remembers p) (sets : i.setting?.isSome)
    (refused : i.assignment? = none) (w : W) :
    (i.run w).1.exitStatus ≠ 0 ∧ Task.Untouched (i.prepare w) (i.run w).2 := by
  obtain ⟨⟨key, word⟩, h⟩ := Option.isSome_iff_exists.1 sets
  obtain ⟨r, setting, hr⟩ := setting_of_run remembers h w
  have unchanged (s s' : Settings) : Task.changed s key word ≠ .ok s' := by
    intro change
    have none_changed := changed_eq h s
    rw [change, refused] at none_changed
    cases none_changed
  obtain ⟨untouched, failed⟩ := setting.of_refused unchanged
  exact ⟨fun h0 => failed (hr.1 h0), untouched⟩

/-- Where a file keeps the settings and can be written anew, no save fails. -/
theorem run_saved (remembers : v.Remembers p) (rewritable : Host.Rewritable W p) {bytes : ByteArray}
    (there : Host.found w p = some (.ok bytes)) (load : Settings.ofFound (Host.found w p) = .ok s)
    (sets : i.assignment?.isSome) : (i.run w).1.exitStatus = 0 := by
  obtain ⟨a, ha⟩ := Option.isSome_iff_exists.1 sets
  cases h : i.setting? with
  | none => simp [assignment?, h] at ha
  | some x =>
    obtain ⟨r, setting, hr⟩ := setting_of_run remembers h w
    have hfound := (i.files w).found
    rw [← hfound] at there load
    refine hr.2 (setting.eq_ok remembers rewritable there load fun s => ⟨s.set a.1 a.2, ?_⟩)
    have changed := changed_eq h s
    rw [ha] at changed
    cases hs : Task.changed s x.1 x.2 <;> simp_all [Except.toOption]

end Invocation

/-! ## Sessions as stores -/

variable {is : List (Invocation v p)}

theorem assignments_cons (w : W) (i : Invocation v p) (is : List (Invocation v p)) :
    assignments w (i :: is) = (i.assigned (i.run w).1).toList ++ assignments (i.run w).2 is := by
  rw [assignments, outcomes, List.filterMap_cons]
  cases i.assigned (i.run w).1 <;> rfl

/-- One run of a session updates what is loaded. -/
theorem load_run (remembers : v.Remembers p) {i : Invocation v p}
    (load : Settings.ofFound (Host.found w p) = .ok s)
    (safe : (i.run w).1.exitStatus ≠ 0 → Host.found w p = none → Host.found (i.run w).2 p = none) :
    Settings.ofFound (Host.found (i.run w).2 p) = .ok (s.assign (i.assigned (i.run w).1).toList) := by
  cases h : i.assigned (i.run w).1 with
  | none =>
    rw [Invocation.found_of_unassigned remembers h safe]
    exact load
  | some a =>
    rw [Invocation.found_of_assigned remembers h load]
    have hversion : (s.set a.1 a.2).version ≤ 4294967295 := by
      rw [Settings.version_set]
      exact Settings.version_le_of_ofFound load
    exact Settings.ofFound_text hversion

/-- What is loaded behind a session is what was loaded before it, with the switches that the session
sets. -/
theorem load_session (remembers : v.Remembers p) (load : Settings.ofFound (Host.found w p) = .ok s)
    (safe : Safe w is) :
    Settings.ofFound (Host.found (systemAfter w is) p) = .ok (s.assign (assignments w is)) := by
  induction is generalizing w s with
  | nil => exact load
  | cons i is ih =>
    have hrest := ih (load_run remembers load safe.1) safe.2
    rw [assignments_cons, systemAfter, hrest, Settings.assign, Settings.assign, Settings.assign,
      List.foldl_append]

/-- Where a file keeps the settings, it still does behind a run. -/
theorem present_run (remembers : v.Remembers p) {i : Invocation v p} {bytes : ByteArray}
    (there : Host.found w p = some (.ok bytes)) (load : Settings.ofFound (Host.found w p) = .ok s) :
    ∃ bytes', Host.found (i.run w).2 p = some (.ok bytes') := by
  cases h : i.assigned (i.run w).1 with
  | none =>
    refine ⟨bytes, (Invocation.found_of_unassigned remembers h fun _ missing => ?_).trans there⟩
    rw [there] at missing
    cases missing
  | some a => exact ⟨_, Invocation.found_of_assigned remembers h load⟩

theorem saved_session (remembers : v.Remembers p) (rewritable : Host.Rewritable W p) {bytes : ByteArray}
    (there : Host.found w p = some (.ok bytes)) (load : Settings.ofFound (Host.found w p) = .ok s) :
    ∀ x ∈ outcomes w is, x.1.assignment?.isSome → x.2.exitStatus = 0 := by
  induction is generalizing w s bytes with
  | nil => exact fun x hx => absurd hx List.not_mem_nil
  | cons i is ih =>
    intro x hx
    rcases List.mem_cons.1 hx with rfl | hx
    · exact Invocation.run_saved remembers rewritable there load
    · obtain ⟨bytes', there'⟩ := present_run (i := i) remembers there load
      refine ih there' (load_run remembers load fun _ missing => ?_) x hx
      rw [there] at missing
      cases missing

/-! ## Sessions that are safe -/

/-- Where something is at the path, nothing can be brought to it. -/
theorem safe_of_present (remembers : v.Remembers p) (there : Host.found w p ≠ none)
    (is : List (Invocation v p)) : Safe w is := by
  induction is generalizing w with
  | nil => trivial
  | cons i is ih =>
    refine ⟨fun _ missing => absurd missing there, ih ?_⟩
    by_cases failed : (i.run w).1.exitStatus = 0
    · cases h : i.setting? with
      | none => rwa [(Invocation.untouched_of_run h w).found remembers, (i.files w).found]
      | some x =>
        obtain ⟨r, setting, hr⟩ := Invocation.setting_of_run remembers h w
        obtain rfl := hr.1 failed
        obtain ⟨_, _, -, -, hfound⟩ := setting.found_of_ok remembers
        simp [hfound]
    · rwa [Invocation.found_of_failed remembers failed there]

/-- Where no save fails, nothing is brought to the path but by a save. -/
theorem safe_of_saved (remembers : v.Remembers p)
    (all : ∀ x ∈ outcomes w is, x.1.assignment?.isSome → x.2.exitStatus = 0) : Safe w is := by
  induction is generalizing w with
  | nil => trivial
  | cons i is ih =>
    refine ⟨fun failed missing => ?_, ih fun x hx => all x (List.mem_cons_of_mem _ hx)⟩
    have unset : i.assignment? = none := by
      by_contra set
      exact failed (all (i, (i.run w).1) (by simp [outcomes]) (Option.isSome_iff_ne_none.2 set))
    have untouched : Task.Untouched (i.prepare w) (i.run w).2 := by
      cases h : i.setting? with
      | none => exact Invocation.untouched_of_run h w
      | some x => exact (Invocation.run_refused remembers (by simp [h]) unset w).2
    rw [untouched.found remembers, (i.files w).found, missing]

end

/-- On a machine, nothing is brought to a path that does not turn back. -/
theorem Machine.safe_of_straight {p : String} (back : ".." ∉ Path.parts p) (w : Machine)
    (is : List (Invocation Machine.view p)) : Safe w is := by
  induction is generalizing w with
  | nil => trivial
  | cons i is ih =>
    refine ⟨fun failed missing => ?_, ih _⟩
    have remembers := Machine.remembers_view p
    rw [← (i.files w).found] at missing
    cases h : i.setting? with
    | none => rw [(Invocation.untouched_of_run h w).found remembers, missing]
    | some x =>
      obtain ⟨r, setting, hr⟩ := Invocation.setting_of_run remembers h w
      cases r with
      | ok done => exact absurd (hr.2 rfl) failed
      | error f => exact Machine.missing_of_setting back setting missing

/-! ## The store -/

/-- **The place of the settings is a store.**  On a system that remembers what is at the path of the
settings, what is loaded behind a session has the version that was loaded before it, and each switch as
it was set last, or else as it was loaded before.  A run with a key or a word that is not known fails
and only reads, and where a file is that can be written anew no save fails. -/
theorem settings_follow_assignments {W Place : Type} [Host (StateM W)] {v : View W Place} {p : String}
    (remembers : v.Remembers p) {w : W} {is : List (Invocation v p)} {j : Invocation v p} {s : Settings}
    (start : Task.loadSettings.result (j.prepare w) = .ok s) (safe : Safe w is) :
    (∃ s', Task.loadSettings.result (j.prepare (systemAfter w is)) = .ok s' ∧ s'.version = s.version
        ∧ ∀ k, s'.switch k = ((assignments w is).reverse.lookup k).or (s.switch k))
      ∧ (∀ i ∈ is, i.setting?.isSome → i.assignment? = none → ∀ w', (i.run w').1.exitStatus ≠ 0
          ∧ v.SameFiles p w' (i.run w').2 ∧ Task.Untouched (i.prepare w') (i.run w').2)
      ∧ (Host.Rewritable W p → (∃ bytes, Host.found w p = some (.ok bytes)) →
          ∀ x ∈ outcomes w is, x.1.assignment?.isSome → x.2.exitStatus = 0) := by
  rw [Invocation.load_prepare remembers] at start
  refine ⟨⟨s.assign (assignments w is), ?_, s.version_assign _, s.switch_assign _⟩, ?_, ?_⟩
  · rw [Invocation.load_prepare remembers]
    exact load_session remembers start safe
  · intro i _ sets refused w'
    obtain ⟨failed, untouched⟩ := Invocation.run_refused remembers sets refused w'
    have still := untouched.sameFiles remembers
    exact ⟨failed, ⟨still.content.trans (i.files w').content, still.found.trans (i.files w').found⟩,
      untouched⟩
  · exact fun rewritable ⟨bytes, there⟩ => saved_session remembers rewritable there start

/-- A run on a machine with an input and an environment of its own, which has the settings at the path. -/
def Invocation.onMachine {p : String} (words : List String) (input : ByteArray)
    (environment : List (String × String)) (accountHome : Option String)
    (place : Task.settingsPath.result (⟨.empty [], input, environment, accountHome⟩ : Machine) = .ok p) :
    Invocation Machine.view p where
  words := words
  prepare w := ⟨w.disk, input, environment, accountHome⟩
  files _ := ⟨rfl, rfl⟩
  place _ := by
    rw [← place]
    exact Task.result_settingsPath Machine.honest_view ⟨rfl, rfl⟩

/-- A run that finds the path of the settings in its environment. -/
def Invocation.withPath (path : String) (words : List String) : Invocation Machine.view path :=
  .onMachine words ByteArray.empty [("TAGF_CONFIG", path)] none rfl

/-- A switch is set twice, another one once, and a word is refused; the other runs set nothing. -/
theorem settings_follow_assignments_twice :
    let w : Machine := ⟨.empty ["work"], ByteArray.empty, [], none⟩
    let is := [["config", "set", "output.color", "on"], ["check", "a IS_EMPTY"],
      ["config", "set", "output.color", "maybe"], ["config", "set", "output.pretty_json", "no"],
      ["config", "set", "output.color", "OFF"]].map (Invocation.withPath "config.toml")
    let j := Invocation.withPath "config.toml" ["config", "show"]
    Machine.view.Remembers "config.toml" ∧ Task.loadSettings.result (j.prepare w) = .ok .default ∧ Safe w is
      ∧ ∃ s', Task.loadSettings.result (j.prepare (systemAfter w is)) = .ok s' ∧ s'.version = 1
        ∧ s'.color = some false ∧ s'.prettyJson = some false := by
  intro w is j
  have remembers := Machine.remembers_view "config.toml"
  have start : Task.loadSettings.result (j.prepare w) = .ok .default := by
    decide +kernel
  have safe : Safe w is := Machine.safe_of_straight (by decide +kernel) w is
  have sets : assignments w is = [(.color, true), (.prettyJson, false), (.color, false)] := by
    decide +kernel
  obtain ⟨⟨s', hload, hversion, hswitch⟩, -, -⟩ := settings_follow_assignments remembers start safe
  rw [sets] at hswitch
  exact ⟨remembers, start, safe, s', hload, hversion, hswitch .color, hswitch .prettyJson⟩

/-- A save that fails behind a path that turns back can put a directory where the settings were missing. -/
theorem settings_lost_behind_turn :
    ¬∀ (p : String) (w : Machine) (is : List (Invocation Machine.view p)) (j : Invocation Machine.view p)
      (s : Settings), Task.loadSettings.result (j.prepare w) = .ok s →
      ∃ s', Task.loadSettings.result (j.prepare (systemAfter w is)) = .ok s' ∧ s'.version = s.version
        ∧ ∀ k, s'.switch k = ((assignments w is).reverse.lookup k).or (s.switch k) := by
  intro store
  let w : Machine := ⟨.empty ["work"], ByteArray.empty, [], none⟩
  let i := Invocation.withPath "a/.." ["config", "set", "output.color", "true"]
  obtain ⟨s', hload, -⟩ := store "a/.." w [i] i .default (by decide +kernel)
  have hlost : Task.loadSettings.result (i.prepare (systemAfter w [i]))
      = .error (.settings (.unreadable .isADirectory)) := by
    decide +kernel
  exact absurd (hload.symm.trans hlost) nofun

end TagQuery
