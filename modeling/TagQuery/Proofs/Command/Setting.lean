import TagQuery.Proofs.Command.Atomic
import TagQuery.Proofs.Command.Results
import TagQuery.Proofs.Settings.RoundTrip

/-!
# What a run of `set` does

Setting a switch has five ways to end (`Setting`): the settings are not read, the change is refused, the
directories cannot be made, the file cannot be written, or it is saved.  So it is on every system that
keeps what is at the path of the settings and reads what was written there (`View.Remembers`), as a
machine does.

    settingsPath.result w = .ok p → loadSettings.Ends w
      fun r text w' => r = Settings.ofFound (Host.found w p) ∧ text = "" ∧ Untouched w w'  (ends_loadSettings)
    Request.ofArguments words = .run o (.set key word) → settingsPath.result w = .ok p →
      ∃ r, Setting p key word w r ((run words).run w).2 ∧ …                                   (setting_of_run)
-/

namespace TagQuery

/-! ## What is found at a path -/

namespace Host

variable {W : Type} [Host (StateM W)]

/-- What reading gives where something is. -/
def found (w : W) (path : String) : Option (Except AccessError ByteArray) :=
  ((Host.kindOf path : StateM W (Option Kind)).run w).1.map fun _ =>
    ((Host.read path : StateM W (Except AccessError ByteArray)).run w).1

/-- A file at the path can be written anew. -/
def Rewritable (W : Type) [Host (StateM W)] (path : String) : Prop :=
  ∀ (w : W) bytes, found w path = some (.ok bytes) →
    ((Host.makeParents path : StateM W (Except AccessError Unit)).run w).1 = .ok ()
      ∧ ∀ text, ((Host.write path text : StateM W (Except AccessError Unit)).run w).1 = .ok ()

end Host

/-- The settings that what was found at their path stands for. -/
def Settings.ofFound (found : Option (Except AccessError ByteArray)) : Except Failure Settings :=
  match found with
  | none => .ok .default
  | some read => do
    let text ← (read >>= textOf).mapError fun e => .settings (.unreadable e)
    match Settings.ofText? text with
    | some s => .ok s
    | none => .error (.settings .malformed)

theorem Settings.version_le_of_ofFound {found : Option (Except AccessError ByteArray)} {s : Settings}
    (h : Settings.ofFound found = .ok s) : s.version ≤ 4294967295 := by
  cases found with
  | none =>
    cases h
    decide
  | some read =>
    obtain ⟨text, -, htext⟩ := Except.bind_ok_iff.1 h
    split at htext
    · next hs =>
      cases htext
      exact Settings.version_le_of_ofText hs
    · cases htext

/-- What was saved is read. -/
theorem Settings.ofFound_text {s : Settings} (h : s.version ≤ 4294967295) :
    Settings.ofFound (some (.ok s.text.toUTF8)) = .ok s := by
  have htext : (Except.ok s.text.toUTF8 >>= textOf) = .ok s.text := textOf_toUTF8 s.text
  rw [Settings.ofFound, htext]
  simp [Except.mapError, Settings.ofText_text h]

/-! ## Systems that remember -/

namespace View

variable {W Place : Type} [Host (StateM W)]

/-- The files are the same, and so is what is found at the path. -/
structure SameFiles (v : View W Place) (path : String) (w w' : W) : Prop where
  content : v.content w' = v.content w
  found : Host.found w' path = Host.found w path

/-- What is at the path stays there until something is written to it, and then that is read from it. -/
structure Remembers (v : View W Place) (path : String) : Prop extends v.Honest where
  found_input : ∀ w, Host.found ((Host.input : StateM W ByteArray).run w).2 path = Host.found w path
  found_kindOf : ∀ q w, Host.found ((Host.kindOf q : StateM W (Option Kind)).run w).2 path =
    Host.found w path
  found_read : ∀ q w, Host.found ((Host.read q : StateM W (Except AccessError ByteArray)).run w).2 path
    = Host.found w path
  found_makeDirectory : ∀ {q w}, Host.found w path ≠ none →
    Host.found ((Host.makeDirectory q : StateM W (Except AccessError Unit)).run w).2 path =
      Host.found w path
  found_write_error : ∀ {text w e w'},
    (Host.write path text : StateM W (Except AccessError Unit)).run w = (.error e, w') →
      Host.found w' path = Host.found w path
  found_write_ok : ∀ {text w w'},
    (Host.write path text : StateM W (Except AccessError Unit)).run w = (.ok (), w') →
      Host.found w' path = some (.ok text.toUTF8)

end View

namespace Task

variable {W Place : Type} [Host (StateM W)] {v : View W Place} {p : String} {w w' : W}

theorem keptByReading_found (remembers : v.Remembers p) :
    KeptByReading fun w w' : W => Host.found w' p = Host.found w p where
  refl _ := rfl
  trans h h' := h'.trans h
  variableOf name w := by
    show Host.found ((Host.variableOf name : StateM W (Option String)).run w).2 p = Host.found w p
    rw [remembers.variableOf]
  accountHome w := by
    show Host.found ((Host.accountHome : StateM W (Option String)).run w).2 p = Host.found w p
    rw [remembers.accountHome]
  input := remembers.found_input
  kindOf := remembers.found_kindOf
  read := remembers.found_read

/-- Reading brings nothing to the path of the settings and takes nothing away. -/
theorem Untouched.found (remembers : v.Remembers p) (h : Untouched w w') :
    Host.found w' p = Host.found w p :=
  h _ (keptByReading_found remembers)

theorem Untouched.same (honest : v.Honest) (h : Untouched w w') : v.Same w w' :=
  h _ (keptByReading_same honest)

theorem Untouched.sameFiles (remembers : v.Remembers p) (h : Untouched w w') : v.SameFiles p w w' :=
  ⟨(h.same remembers.toHonest).content, h.found remembers⟩

/-- New directories leave what is there. -/
theorem found_makeParents (remembers : v.Remembers p) {r : Except AccessError Unit}
    (there : Host.found w p ≠ none)
    (made : (Host.makeParents p : StateM W (Except AccessError Unit)).run w = (r, w')) :
    Host.found w' p = Host.found w p := by
  have kept : Host.Keeps (fun w w' : W => Host.found w p ≠ none → Host.found w' p = Host.found w p)
      (Host.makeParents p : StateM W (Except AccessError Unit)) := by
    refine Host.keeps_makeDirectories (fun _ _ => rfl) (fun h h' there => ?_)
      (fun q _ w _ => remembers.found_kindOf q w) fun q _ w there => remembers.found_makeDirectory there
    rw [h' (by rwa [h there]), h there]
  have hw := kept w there
  rwa [made] at hw

/-! ## Loading -/

theorem ends_isPresent (p : String) (w : W) : (isPresent p : Task (StateM W) Bool).Ends w
    fun r text w' => r = .ok (Host.found w p).isSome ∧ text = "" ∧ Untouched w w' := by
  refine Ends.bind (P := fun r text w' =>
      r = .ok ((Host.kindOf p : StateM W (Option Kind)).run w).1 ∧ text = "" ∧ Untouched w w')
    (ends_ask ⟨rfl, rfl, keptByReading_untouched.kindOf p w⟩) ?_ ?_
  · rintro e text w' ⟨h, -⟩
    cases h
  · rintro kind text w' ⟨h, rfl, untouched⟩
    cases h
    refine ends_pure ⟨?_, rfl, untouched⟩
    rw [Host.found, Option.isSome_map]

/-- What is loaded is what the file at the path says, or the defaults where nothing is. -/
theorem ends_loadSettings (remembers : v.Remembers p) (hpath : settingsPath.result w = .ok p) :
    (loadSettings : Task (StateM W) Settings).Ends w
      fun r text w' => r = Settings.ofFound (Host.found w p) ∧ text = "" ∧ Untouched w w' := by
  refine (gives_settingsPath remembers.toHonest w).ends_bind (fun e he => ?_) fun path hp => ?_
  · rw [hpath] at he
    cases he
  obtain rfl : p = path := Except.ok.inj (hpath.symm.trans hp)
  refine (ends_isPresent p w).bind ?_ ?_
  · rintro e text w₁ ⟨h, -⟩
    cases h
  rintro present text w₁ ⟨hpresent, rfl, untouched⟩
  have hfound := untouched.found remembers
  cases hw : Host.found w p with
  | none =>
    obtain rfl : present = false := by simpa [hw] using hpresent
    refine (gives_tell _).ends_bind (fun _ he => nomatch he) fun _ _ => ends_pure ⟨?_, rfl, untouched⟩
    rfl
  | some read =>
    obtain rfl : present = true := by simpa [hw] using hpresent
    -- What is found is what reading gives on the system as it is now.
    have hread : ((Host.read p : StateM W (Except AccessError ByteArray)).run w₁).1 = read := by
      rw [hw, Host.found] at hfound
      obtain ⟨kind, -, hread⟩ := Option.map_eq_some_iff.1 hfound
      exact hread
    have later := keptByReading_untouched.trans untouched (keptByReading_untouched.read p w₁)
    refine ends_bind_ask (a := read) (Prod.ext hread rfl) ?_
    have decoded : (need (fun e => .settings (.unreadable e)) (read >>= textOf) >>= fun text =>
        match Settings.ofText? text with
        | some s => do
          tell (.settingsLoaded p s.version)
          return s
        | none => throw (.settings .malformed) : Task (StateM W) Settings).Gives
          ((Host.read p : StateM W (Except AccessError ByteArray)).run w₁).2
          (Settings.ofFound (some read)) := by
      refine (gives_need _ _).bind fun text => ?_
      cases Settings.ofText? text with
      | some s => exact (gives_tell _).bind fun _ => gives_pure s
      | none => exact gives_throw _
    refine decoded.imp ?_
    rintro r text w₂ ⟨rfl, rfl, rfl⟩
    exact ⟨rfl, rfl, later⟩

theorem result_loadSettings (remembers : v.Remembers p) (hpath : settingsPath.result w = .ok p) :
    (loadSettings : Task (StateM W) Settings).result w = Settings.ofFound (Host.found w p) := by
  obtain ⟨r, events, text, w', hrun, hr, -⟩ := ends_loadSettings remembers hpath ⟨[], ""⟩
  rw [result, hrun, hr]

end Task

/-! ## How setting a switch ends -/

/-- How setting a switch ends: with what result, and on what system.  Up to the first question that changes
something, the system is only read. -/
inductive Setting {W : Type} [Host (StateM W)] (path key word : String) (w : W) :
    Except Failure Unit → W → Prop where
  | unread {f : Failure} {w' : W} (read : Settings.ofFound (Host.found w path) = .error f)
      (untouched : Task.Untouched w w') : Setting path key word w (.error f) w'
  | refused {s : Settings} {e : SettingsError} {w' : W}
      (read : Settings.ofFound (Host.found w path) = .ok s)
      (change : Task.changed s key word = .error e) (untouched : Task.Untouched w w') :
      Setting path key word w (.error (.settings e)) w'
  | unmade {s s' : Settings} {e : AccessError} {w₀ w' : W}
      (read : Settings.ofFound (Host.found w path) = .ok s)
      (change : Task.changed s key word = .ok s') (untouched : Task.Untouched w w₀)
      (made : (Host.makeParents path : StateM W (Except AccessError Unit)).run w₀ = (.error e, w')) :
      Setting path key word w (.error (.settings (.noDirectory e))) w'
  | unwritten {s s' : Settings} {e : AccessError} {w₀ w₁ w' : W}
      (read : Settings.ofFound (Host.found w path) = .ok s) (change : Task.changed s key word = .ok s')
      (untouched : Task.Untouched w w₀)
      (made : (Host.makeParents path : StateM W (Except AccessError Unit)).run w₀ = (.ok (), w₁))
      (written : (Host.write path s'.text : StateM W (Except AccessError Unit)).run w₁ = (.error e, w')) :
      Setting path key word w (.error (.settings (.unwritable e))) w'
  | saved {s s' : Settings} {w₀ w₁ w' : W} (read : Settings.ofFound (Host.found w path) = .ok s)
      (change : Task.changed s key word = .ok s') (untouched : Task.Untouched w w₀)
      (made : (Host.makeParents path : StateM W (Except AccessError Unit)).run w₀ = (.ok (), w₁))
      (written : (Host.write path s'.text : StateM W (Except AccessError Unit)).run w₁ = (.ok (), w')) :
      Setting path key word w (.ok ()) w'

section

variable {W Place : Type} [Host (StateM W)] {v : View W Place} {p key word : String} {w w₀ : W}

namespace Task

theorem ends_saveSettings_of_changed {s s' : Settings} (read : Settings.ofFound (Host.found w p) = .ok s)
    (change : changed s key word = .ok s') (untouched : Untouched w w₀) :
    (saveSettings p s' : Task (StateM W) Unit).Ends w₀ fun r _ w' => Setting p key word w r w' := by
  cases hmade : (Host.makeParents p : StateM W (Except AccessError Unit)).run w₀ with
  | mk made w₁ =>
    refine ends_bind_ask hmade ?_
    cases made with
    | error e =>
      refine (gives_throw _).ends_bind (fun f hf => ?_) fun _ h => nomatch h
      cases hf
      exact .unmade read change untouched hmade
    | ok made =>
      refine (gives_pure ()).ends_bind (fun _ h => nomatch h) fun _ _ => ?_
      cases hwritten : (Host.write p s'.text : StateM W (Except AccessError Unit)).run w₁ with
      | mk written w₂ =>
        refine ends_bind_ask hwritten ?_
        cases written with
        | error e => exact ends_throw (.unwritten read change untouched hmade hwritten)
        | ok written => exact ends_pure (.saved read change untouched hmade hwritten)

/-- Setting a switch on a system that was read before. -/
theorem ends_set (remembers : v.Remembers p) (hpath : settingsPath.result w = .ok p)
    (untouched : Untouched w w₀) (m : Manner) :
    (ofCommand m (.set key word) : Task (StateM W) Unit).Ends w₀
      fun r _ w' => Setting p key word w r w' := by
  have same {w' : W} (h : Untouched w w') : (settingsPath : Task (StateM W) String).result w' = .ok p :=
    (result_settingsPath remembers.toHonest (h.same remembers.toHonest).toSameEnvironment).trans hpath
  refine (ends_loadSettings remembers (same untouched)).bind ?_ ?_
  · rintro f text w₁ ⟨hf, -, later⟩
    rw [untouched.found remembers] at hf
    exact .unread hf.symm (keptByReading_untouched.trans untouched later)
  rintro s text w₁ ⟨hs, rfl, later⟩
  rw [untouched.found remembers] at hs
  have untouched := keptByReading_untouched.trans untouched later
  refine Ends.imp (P := fun r _ w' => Setting p key word w r w') ?_ id
  refine (gives_settingsPath remembers.toHonest w₁).ends_bind (fun e he => ?_) fun path hp => ?_
  · rw [same untouched] at he
    cases he
  obtain rfl : p = path := Except.ok.inj ((same untouched).symm.trans hp)
  cases change : changed s key word with
  | error e =>
    refine (gives_need .settings (.error e)).ends_bind (fun f hf => ?_) fun _ h => nomatch h
    cases hf
    exact .refused hs.symm change untouched
  | ok s' =>
    refine (gives_need .settings (.ok s')).ends_bind (fun _ h => nomatch h) fun s'' hs'' => ?_
    cases hs''
    refine (ends_saveSettings_of_changed hs.symm change untouched).bind (fun h => h) fun h => ?_
    exact ends_print h

theorem ends_withSettings (remembers : v.Remembers p) (hpath : settingsPath.result w = .ok p)
    (o : Options) :
    (withSettings o (.set key word) : Task (StateM W) Unit).Ends w
      fun r _ w' => Setting p key word w r w' := by
  refine (ends_loadSettings remembers hpath).bind ?_ ?_
  · rintro f text w₁ ⟨hf, -, untouched⟩
    exact .unread hf.symm untouched
  rintro s text w₁ ⟨-, -, untouched⟩
  refine (gives_variableOf remembers.toHonest "NO_COLOR" w₁).ends_bind (fun _ h => nomatch h)
    fun refused _ => ?_
  exact (ends_set remembers hpath untouched _).imp fun h => h

end Task

/-- A run of `set` ends as setting the switch does. -/
theorem setting_of_run (remembers : v.Remembers p) {words : List String} {o : Options}
    (hset : Request.ofArguments words = .run o (.set key word))
    (hpath : Task.settingsPath.result w = .ok p) :
    ∃ r, Setting p key word w r ((run words : StateM W Outcome).run w).2
      ∧ (((run words : StateM W Outcome).run w).1.exitStatus = 0 ↔ r = .ok ()) := by
  have ends : (Task.withSettings o (.set key word) : Task (StateM W) Unit).Ends w _ :=
    Task.ends_withSettings remembers hpath o
  obtain ⟨r, text, w', setting, hexit, -, hsystem⟩ := run_of_ends hset ends
  rw [remembers.variableOf] at hsystem
  exact ⟨r, hsystem ▸ setting, hexit⟩

end

/-! ## What is found behind it -/

namespace Setting

variable {W Place : Type} [Host (StateM W)] {v : View W Place} {p key word : String} {w w' : W}
  {r : Except Failure Unit}

/-- What is at the path is there behind a failure too. -/
theorem found_of_error (remembers : v.Remembers p) {f : Failure} (h : Setting p key word w (.error f) w')
    (there : Host.found w p ≠ none) : Host.found w' p = Host.found w p := by
  cases h with
  | unread _ untouched => exact untouched.found remembers
  | refused _ _ untouched => exact untouched.found remembers
  | unmade _ _ untouched made =>
    have hfound := untouched.found remembers
    rw [← hfound] at there ⊢
    exact Task.found_makeParents remembers there made
  | unwritten _ _ untouched made written =>
    have hfound := untouched.found remembers
    rw [← hfound] at there ⊢
    rw [remembers.found_write_error written, Task.found_makeParents remembers there made]

/-- Behind a success the file has the settings that were loaded, but for the change. -/
theorem found_of_ok (remembers : v.Remembers p) (h : Setting p key word w (.ok ()) w') :
    ∃ s s', Settings.ofFound (Host.found w p) = .ok s ∧ Task.changed s key word = .ok s'
      ∧ Host.found w' p = some (.ok s'.text.toUTF8) := by
  cases h with
  | saved read change _ _ written => exact ⟨_, _, read, change, remembers.found_write_ok written⟩

/-- A change that is refused is no change. -/
theorem of_refused (h : Setting p key word w r w') (refused : ∀ s s', Task.changed s key word ≠ .ok s') :
    Task.Untouched w w' ∧ r ≠ .ok () := by
  cases h with
  | unread _ untouched => exact ⟨untouched, nofun⟩
  | refused _ _ untouched => exact ⟨untouched, nofun⟩
  | unmade _ change _ _ => exact absurd change (refused _ _)
  | unwritten _ change _ _ _ => exact absurd change (refused _ _)
  | saved _ change _ _ _ => exact absurd change (refused _ _)

/-- Where a file can be written anew, nothing keeps a change from being saved that is not refused. -/
theorem eq_ok (remembers : v.Remembers p) (rewritable : Host.Rewritable W p) {bytes : ByteArray}
    {s : Settings} (h : Setting p key word w r w') (there : Host.found w p = some (.ok bytes))
    (load : Settings.ofFound (Host.found w p) = .ok s)
    (change : ∀ s, ∃ s', Task.changed s key word = .ok s') :
    r = .ok () := by
  have stays {w₀ : W} (untouched : Task.Untouched w w₀) : Host.found w₀ p = some (.ok bytes) :=
    (untouched.found remembers).trans there
  cases h with
  | unread read _ => exact absurd (read.symm.trans load) nofun
  | @refused s _ _ _ refused _ =>
    obtain ⟨s', hs'⟩ := change s
    exact absurd (refused.symm.trans hs') nofun
  | unmade _ _ untouched made =>
    have hmade := (rewritable _ bytes (stays untouched)).1
    rw [made] at hmade
    cases hmade
  | @unwritten _ s' _ w₀ w₁ _ _ _ untouched made written =>
    have hfound : Host.found w₁ p = some (.ok bytes) := by
      rw [Task.found_makeParents remembers (by simp [stays untouched]) made, stays untouched]
    have hwritten := (rewritable w₁ bytes hfound).2 s'.text
    rw [written] at hwritten
    cases hwritten
  | saved _ _ _ _ _ => rfl

end Setting

/-! ## Machines -/

namespace Machine

variable {w w' : Machine} {p : String} {r : Except AccessError Unit}

/-- Reading leaves a machine as it is. -/
theorem eq_of_untouched (h : Task.Untouched w w') : w' = w :=
  h (fun w w' => w' = w) ⟨fun _ => rfl, fun h h' => h'.trans h, fun _ _ => rfl, fun _ => rfl, fun _ => rfl,
    fun _ _ => rfl, fun _ _ => rfl⟩

theorem found_eq_none_iff : Host.found w p = none ↔ ∀ e, w.disk.find p ≠ .ok e := by
  rw [← Disk.kindOf_eq_none_iff]
  exact Option.map_eq_none_iff

theorem found_eq_ok_iff {bytes : ByteArray} :
    Host.found w p = some (.ok bytes) ↔ w.disk.read p = .ok bytes := by
  show (w.disk.kindOf p).map (fun _ => w.disk.read p) = some (.ok bytes) ↔ _
  rw [Disk.kindOf, Disk.read]
  split
  · next h => simp [h]
  · next h => simp [h]
  · next h => simp [h]

/-- What can be found is found as before behind a new directory. -/
theorem found_of_find {e : Entry} (before : w.disk.find p = .ok e) (behind : w'.disk.find p = .ok e) :
    Host.found w' p = Host.found w p := by
  show (w'.disk.kindOf p).map (fun _ => w'.disk.read p) = (w.disk.kindOf p).map fun _ => w.disk.read p
  simp only [Disk.kindOf, Disk.read, before, behind]

theorem remembers_view (p : String) : view.Remembers p where
  toHonest := honest_view
  found_input _ := rfl
  found_kindOf _ _ := rfl
  found_read _ _ := rfl
  found_makeDirectory := by
    intro q w there
    obtain ⟨e, he⟩ : ∃ e, w.disk.find p = .ok e := by
      simpa [found_eq_none_iff] using there
    show Host.found ((onDisk fun d => d.makeDirectory q).run w).2 p = _
    rw [run_onDisk]
    split
    · next hmake => exact found_of_find he (Disk.find_makeDirectory he hmake)
    · rfl
  found_write_error := by
    intro text w e w' h
    change (onDisk fun d => d.write p text).run w = _ at h
    rw [run_onDisk] at h
    split at h <;> cases h
    rfl
  found_write_ok := by
    intro text w w' h
    change (onDisk fun d => d.write p text).run w = _ at h
    rw [run_onDisk] at h
    split at h <;> cases h
    next hwrite => exact found_eq_ok_iff.2 (Disk.read_write hwrite)

/-- Where the path leads somewhere, the directories in front of it are there. -/
theorem run_makeParents {l : Location} (h : w.disk.resolve p = .ok l) :
    (Host.makeParents p : StateM Machine (Except AccessError Unit)).run w = (.ok (), w) := by
  unfold Host.makeParents
  cases hpaths : (Path.outward p).tail with
  | nil => rfl
  | cons q outer =>
    have hq : Path.Encloses q p := Path.encloses_of_mem_outward (by rw [hpaths]; simp)
    obtain ⟨k, hk, there⟩ := Disk.resolve_of_encloses hq h
    have hmake : (Host.makeDirectory q : StateM Machine (Except AccessError Unit)).run w
        = (.error .alreadyExists, w) := by
      show (onDisk fun d => d.makeDirectory q).run w = _
      rw [run_onDisk, Disk.makeDirectory_there hk there]
    have hkind : (Host.kindOf q : StateM Machine (Option Kind)).run w = (some .directory, w) := by
      rw [← Disk.kindOf_directory hk there]
      rfl
    rw [Host.makeDirectories, StateT.run_bind, hmake]
    show (Host.unlessDirectory q .alreadyExists : StateM Machine (Except AccessError Unit)).run w = _
    rw [Host.unlessDirectory, StateT.run_bind, hkind]
    rfl

/-- On a machine, no save fails where a file is. -/
theorem rewritable (p : String) : Host.Rewritable Machine p := by
  intro w bytes there
  have hread := found_eq_ok_iff.1 there
  obtain ⟨l, hl, -⟩ := Disk.find_ok_iff.1 (Disk.read_ok_iff.1 hread)
  refine ⟨by rw [run_makeParents hl], fun text => ?_⟩
  obtain ⟨d', hd'⟩ := Disk.exists_write hread text
  show ((onDisk fun d => d.write p text).run w).1 = _
  rw [run_onDisk, hd']

/-- What a path that does not turn back misses stays missing behind the directories in front of it. -/
theorem missing_of_makeParents (back : ".." ∉ Path.parts p) (missing : Host.found w p = none)
    (made : (Host.makeParents p : StateM Machine (Except AccessError Unit)).run w = (r, w')) :
    Host.found w' p = none := by
  have kept : Host.Keeps (fun w w' : Machine => Disk.SamePlace p w.disk w'.disk)
      (Host.makeParents p : StateM Machine (Except AccessError Unit)) := by
    refine Host.keeps_makeDirectories (R := fun w w' : Machine => Disk.SamePlace p w.disk w'.disk)
      (fun w => .refl p w.disk) Disk.SamePlace.trans (fun q _ w => .refl p w.disk) fun q hq w => ?_
    show Disk.SamePlace p w.disk ((onDisk fun d => d.makeDirectory q).run w).2.disk
    rw [run_onDisk]
    split
    · next hmake => exact .of_makeDirectory (Path.encloses_of_mem_outward hq) back hmake
    · exact .refl p w.disk
  have same := kept w
  rw [made] at same
  rw [found_eq_none_iff] at missing ⊢
  exact fun e he => missing e (Disk.find_of_samePlace back same he)

/-- Behind a path that does not turn back, a failure brings nothing to a place where nothing was. -/
theorem missing_of_setting (back : ".." ∉ Path.parts p) {key word : String} {f : Failure}
    (h : Setting p key word w (.error f) w') (missing : Host.found w p = none) :
    Host.found w' p = none := by
  cases h with
  | unread _ untouched => rwa [eq_of_untouched untouched]
  | refused _ _ untouched => rwa [eq_of_untouched untouched]
  | unmade _ _ untouched made =>
    rw [eq_of_untouched untouched] at made
    exact missing_of_makeParents back missing made
  | unwritten _ _ untouched made written =>
    rw [eq_of_untouched untouched] at made
    rw [(remembers_view p).found_write_error written]
    exact missing_of_makeParents back missing made

end Machine

end TagQuery
