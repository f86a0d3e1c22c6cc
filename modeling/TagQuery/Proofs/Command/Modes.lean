import TagQuery.Proofs.Command.Atomic
import TagQuery.Proofs.Json.Order

/-!
# Text and JSON

The commands that convert filters print the same thing in two ways.  A `Converter` is such a command: it
reads a text (`Converter.reading`), makes the text of a filter of it, and prints both
(`Converter.print`); only the last step depends on the options.  So two runs that differ in `--json`
alone end alike, and what the one prints as text is read back from the JSON of the other:

    withSettings o k.command = do …; print (k.print (plainManner o) input text)  (withSettings_converter)
    ModesAgree w k (run words) (run jsonWords)                                                (modes_agree)

With `--json` in front of them, words ask for the same command with that one option more
(`Request.readLine_json`).
-/

namespace TagQuery

/-! ## The option in front -/

namespace Request

/-- The level with `--json` given before all else. -/
def Level.withJson (l : Level) : Level :=
  { l with flags := l.flags ++ [.json] }

/-- What is added to a level is added behind `--json` too, unless that is added again. -/
def Adds (step : Level → Reading Level) : Prop :=
  ∀ l l', step l = .ok l' → l.flags ⊆ l'.flags
    ∧ (.json ∉ l'.flags → step l.withJson = .ok l'.withJson)

theorem Adds.bind {first next : Level → Reading Level} (hfirst : Adds first) (hnext : Adds next) :
    Adds fun l => first l >>= next := by
  intro l l' h
  obtain ⟨mid, hmid, h⟩ := Except.bind_ok_iff.1 h
  obtain ⟨hsub, hjson⟩ := hfirst l mid hmid
  obtain ⟨hsub', hjson'⟩ := hnext mid l' h
  refine ⟨fun _ hflag => hsub' (hsub hflag), fun hnot => ?_⟩
  show first l.withJson >>= next = _
  rw [hjson fun hmem => hnot (hsub' hmem), Except.ok_bind, hjson' hnot]

theorem adds_error (r : Request) : Adds fun _ => .error r := by
  intro l l' h
  simp at h

namespace Form

theorem adds_addFlag (flag : Flag) : Adds fun l => addFlag l flag := by
  intro l l' h
  simp only [addFlag] at h ⊢
  split at h
  · simp [stopWith] at h
  · next hflag =>
    obtain rfl := Except.ok.inj h
    refine ⟨List.subset_cons_self _ _, fun hnot => ?_⟩
    have hne : flag ≠ .json := fun heq => hnot (heq ▸ List.mem_cons_self)
    simp [Level.withJson, hflag, hne]

theorem adds_addLong (f : Form) (name : String) : Adds fun l => f.addLong l name := by
  unfold addLong
  split
  · exact adds_error _
  · split
    · exact adds_error _
    · split
      · exact adds_addFlag _
      · exact adds_error _

theorem adds_addShort (f : Form) (letter : Char) : Adds fun l => f.addShort l letter := by
  unfold addShort
  split
  · exact adds_error _
  · split
    · exact adds_error _
    · split
      · exact adds_addFlag _
      · split
        · exact adds_addFlag _
        · exact adds_error _

theorem adds_addShorts (f : Form) (letters : List Char) : Adds fun l => letters.foldlM f.addShort l := by
  induction letters with
  | nil =>
    intro l l' h
    obtain rfl := Except.ok.inj h
    exact ⟨List.Subset.refl _, fun _ => rfl⟩
  | cons letter letters ih =>
    simp only [List.foldlM_cons]
    exact (f.adds_addShort letter).bind ih

theorem adds_addValue (f : Form) (text : String) : Adds fun l => f.addValue l text := by
  intro l l' h
  simp only [addValue] at h ⊢
  split at h
  · simp [stopWith] at h
  · next rule hrule =>
    split at h
    · next haccepts =>
      obtain rfl := Except.ok.inj h
      exact ⟨List.Subset.refl _, fun _ => by simp [Level.withJson, hrule, haccepts]⟩
    · simp [stopWith] at h

theorem adds_addWords (f : Form) (valuesOnly : Bool) (words : List String) :
    Adds fun l => f.addWords l valuesOnly words := by
  induction words generalizing valuesOnly with
  | nil =>
    intro l l' h
    obtain rfl := Except.ok.inj h
    exact ⟨List.Subset.refl _, fun _ => rfl⟩
  | cons word words ih =>
    simp only [addWords]
    split
    · exact (f.adds_addValue word).bind (ih true)
    · exact ih true
    · exact (f.adds_addLong _).bind (ih false)
    · exact (f.adds_addShorts _).bind (ih false)
    · split
      · exact (f.adds_addValue word).bind (ih false)
      · split
        · intro l l' h
          obtain rfl := Except.ok.inj h
          exact ⟨List.Subset.refl _, fun _ => rfl⟩
        · exact adds_error _

end Form

theorem optionsOf_withJson (level : Level) (levels : List Level) :
    optionsOf (level.withJson :: levels) = { optionsOf (level :: levels) with json := true } := by
  simp [optionsOf, Level.withJson]

theorem check_withJson (f : Form) (level : Level) : f.check level.withJson = f.check level := by
  simp [Form.check, Level.withJson]

/-- With `--json` in front, a line asks for the same command with that option more. -/
theorem readLine_json {words : List String} {o : Options} {c : Command}
    (h : readLine words = .ok (.run o c)) (json : o.json = false) :
    readLine ("--json" :: words) = .ok (.run { o with json := true } c) := by
  obtain ⟨level, hlevel, h⟩ := Except.bind_ok_iff.1 h
  have hread (levels : List Level) (ho : optionsOf (level :: levels) = o) :
      programForm.read ("--json" :: words) = .ok level.withJson := by
    have hnot : Flag.json ∉ level.flags := by
      intro hmem
      simp [← ho, optionsOf, hmem] at json
    exact (programForm.adds_addWords false words _ _ hlevel).2 hnot
  rw [readLine]
  split at h
  · next hnext =>
    obtain ⟨⟨⟩, hcheck, h⟩ := Except.bind_ok_iff.1 h
    obtain ⟨rfl, rfl⟩ := Request.run.inj (Except.ok.inj h)
    rw [hread [] rfl, Except.ok_bind]
    have hnext' : level.withJson.next = none := hnext
    simp only [hnext', check_withJson, hcheck, Except.ok_bind, optionsOf_withJson]
    rfl
  · next name rest hnext =>
    obtain ⟨⟨command, levels⟩, hcommand, h⟩ := Except.bind_ok_iff.1 h
    obtain ⟨⟨⟩, hcheck, h⟩ := Except.bind_ok_iff.1 h
    obtain ⟨rfl, rfl⟩ := Request.run.inj (Except.ok.inj h)
    rw [hread levels rfl, Except.ok_bind]
    have hnext' : level.withJson.next = some (name, rest) := hnext
    simp only [hnext', hcommand, check_withJson, hcheck, Except.ok_bind, optionsOf_withJson]
    rfl

end Request

/-! ## Members of objects -/

namespace Json

/-- The value under a key of an object. -/
def member? (v : Json) (key : String) : Option Json :=
  match v with
  | .object members => members.lookup key
  | _ => none

/-- What stands under a key, no key coming twice. -/
theorem lookup_eq_some_iff {ms : List (String × Json)} (nodup : (ms.map Prod.fst).Nodup) {key : String}
    {v : Json} : ms.lookup key = some v ↔ (key, v) ∈ ms := by
  induction ms with
  | nil => simp
  | cons m ms ih =>
    obtain ⟨k, w⟩ := m
    obtain ⟨hapart, hlater⟩ := List.nodup_cons.1 nodup
    by_cases hkey : key = k
    · subst hkey
      have hnot : (key, v) ∉ ms := fun hmem => hapart (List.mem_map.2 ⟨_, hmem, rfl⟩)
      simp [hnot, eq_comm]
    · rw [List.lookup_cons, beq_false_of_ne hkey]
      simp [ih hlater, hkey]

/-- Ordering an object leaves each member under its key. -/
theorem member?_ordered {ms : List (String × Json)} (nodup : (ms.map Prod.fst).Nodup) (key : String) :
    (Json.object ms).ordered.member? key = ((Json.object ms).member? key).map ordered := by
  have hkeys := nodup
  rw [← keys_orderedMembers] at hkeys
  have hsorted := (sortMembers_spec (orderedMembers ms)).1
  apply Option.ext
  intro v
  show (sortMembers (orderedMembers ms)).lookup key = some v ↔ (ms.lookup key).map ordered = some v
  rw [lookup_eq_some_iff hsorted.nodup_keys, (perm_sortMembers hkeys).mem_iff, orderedMembers_eq,
    List.mem_map, Option.map_eq_some_iff]
  constructor
  · rintro ⟨⟨k, w⟩, hmem, heq⟩
    obtain ⟨rfl, rfl⟩ := Prod.mk.inj heq
    exact ⟨w, (lookup_eq_some_iff nodup).2 hmem, rfl⟩
  · rintro ⟨w, hw, rfl⟩
    exact ⟨(key, w), (lookup_eq_some_iff nodup).1 hw, rfl⟩

/-- What is printed on lines of its own is read back. -/
theorem read_jsonText {v : Json} (h : v.nesting ≤ maxNesting) (back : v.NumbersReadBack) :
    read (Report.jsonText v) = .ok v.ordered := by
  have hbreak : Spaces ['\n'] := List.forall_mem_singleton.2 rfl
  exact readWithin_text h back .indented hbreak

/-- An object without further ones in it is read back, each member under its key. -/
theorem read_object {ms : List (String × Json)} (nodup : (ms.map Prod.fst).Nodup)
    (flat : ∀ m ∈ ms, m.2.nesting = 0) (back : ∀ m ∈ ms, m.2.NumbersReadBack) :
    ∃ v, read (Report.jsonText (.object ms)) = .ok v
      ∧ ∀ key, v.member? key = ((Json.object ms).member? key).map ordered := by
  have hinner : nestingMembers ms ≤ 0 := nestingMembers_le fun m hm => (flat m hm).le
  have hnesting : (Json.object ms).nesting ≤ maxNesting := by
    rw [nesting, maxNesting]
    omega
  exact ⟨_, read_jsonText hnesting (NumbersReadBack.object_iff.2 back), member?_ordered nodup⟩

end Json

/-! ## Failures -/

namespace Failure

open Json

/-- The members of a failure. -/
def members (f : Failure) : List (String × Json) :=
  [("code", .string f.code), ("message", .string f.message)] ++ f.details

theorem nodup_members (f : Failure) : (f.members.map Prod.fst).Nodup := by
  cases f with
  | filter e =>
    rw [members, details]
    cases e.position? <;> simp
  | decode e =>
    rw [members, details]
    cases e.line? <;> simp
  | settings e => simp [members, details]
  | access e => simp [members, details]

/-- A failure tells texts and counts. -/
theorem value_of_mem_members {f : Failure} {m : String × Json} (h : m ∈ f.members) :
    (∃ s, m.2 = .string s) ∨ ∃ n, m.2 = .number (.ofCount n) := by
  rcases List.mem_append.1 h with h | h
  · rcases List.mem_cons.1 h with rfl | h
    · exact .inl ⟨_, rfl⟩
    · obtain rfl := List.mem_singleton.1 h
      exact .inl ⟨_, rfl⟩
  · cases f with
    | filter e =>
      rcases List.mem_cons.1 h with rfl | h
      · exact .inl ⟨_, rfl⟩
      · obtain ⟨p, -, rfl⟩ := List.mem_map.1 h
        exact .inr ⟨p, rfl⟩
    | decode e =>
      obtain ⟨l, -, rfl⟩ := List.mem_map.1 h
      exact .inr ⟨l, rfl⟩
    | settings e => simp [details] at h
    | access e => simp [details] at h

theorem nesting_members {f : Failure} {m : String × Json} (h : m ∈ f.members) : m.2.nesting = 0 := by
  rcases value_of_mem_members h with ⟨s, hs⟩ | ⟨n, hn⟩
  · simp [hs, nesting]
  · simp [hn, nesting]

/-- All numbers of a failure are whole. -/
theorem numbersReadBack (f : Failure) : f.json.NumbersReadBack := by
  refine NumbersReadBack.object_iff.2 fun m hm => ?_
  obtain rfl := List.mem_singleton.1 hm
  refine NumbersReadBack.object_iff.2 fun m hm => ?_
  rcases value_of_mem_members ((perm_sortMembers f.nodup_members).mem_iff.1 hm) with ⟨s, hs⟩ | ⟨n, hn⟩
  · simp [hs, NumbersReadBack, numbers]
  · simp [hn, NumbersReadBack, numbers, Number.ofCount, readsBack_whole]

/-- **A failure says the same as text and as JSON.** -/
theorem read_json_text (f : Failure) :
    ∃ v, read (f.text true) = .ok v
      ∧ (v.member? "error").bind (fun e => e.member? "message") = some (.string f.message) := by
  have hperm := perm_sortMembers f.nodup_members
  have hnodup := ((hperm.map Prod.fst).nodup_iff).2 f.nodup_members
  have hinner : nestingMembers (sortMembers f.members) ≤ 0 :=
    nestingMembers_le fun m hm => (nesting_members (hperm.mem_iff.1 hm)).le
  have hnesting : f.json.nesting ≤ maxNesting := by
    show max (nestingMembers (sortMembers f.members) + 1) 0 + 1 ≤ 127
    omega
  have hmessage : (Json.object (sortMembers f.members)).member? "message" = some (.string f.message) :=
    (lookup_eq_some_iff hnodup).2 (hperm.mem_iff.2 (by simp [members]))
  refine ⟨f.json.ordered, read_jsonText hnesting f.numbersReadBack, ?_⟩
  have herror : f.json.ordered.member? "error" = some (Json.object (sortMembers f.members)).ordered :=
    member?_ordered (by simp) "error"
  rw [herror, Option.bind_some, member?_ordered hnodup, hmessage]
  rfl

end Failure

/-! ## Conversions -/

/-- A command that converts a filter or a tree, and does not explain it. -/
inductive Converter where
  | parse (argument : Option String)
  | normalize (argument : Option String)
  | check (argument : Option String)
  | ofTree (file : Option String)
  deriving DecidableEq, Repr

namespace Converter

def command : Converter → Command
  | .parse argument => .parse argument false
  | .normalize argument => .normalize argument
  | .check argument => .check argument
  | .ofTree file => .ofTree file

/-- The key that the filter is printed under. -/
def key : Converter → String
  | .check _ => "normalized"
  | _ => "filter"

/-- What is printed in front of the filter as text. -/
def mark : Converter → String
  | .check _ => "✓ valid: "
  | _ => ""

section

variable {m : Type → Type} [Monad m] [Host m]

/-- The text of the filter that is read, if it is a filter. -/
def input : Converter → Task m (Option String)
  | .parse argument | .normalize argument | .check argument => do
    return some (← Task.filterText argument)
  | .ofTree _ => return none

/-- What is read of the system before anything is made: the settings, whether colours are refused, and
the text of the filter. -/
def reading (k : Converter) : Task m (Option String) := do
  let _ ← Task.loadSettings
  let _ ← Task.ask (Host.variableOf "NO_COLOR")
  k.input

/-- The text of the filter that is made. -/
def make (input : Option String) : Converter → Task m String
  | .parse _ => do return (← Task.parse (input.getD "")).text
  | .normalize _ | .check _ => Task.canonical (input.getD "")
  | .ofTree file => do
    let t ← Task.need .decode (Tree.ofText (← Task.treeText file))
    Task.tell (.treeDecoded t.nodeCount)
    return (← Task.filterOf t).text

/-- All that is done before anything is printed. -/
def work (k : Converter) : Task m (Option String × String) := do
  let input ← k.reading
  return (input, ← k.make input)

end

/-- What is printed of the text that was read and the text that was made. -/
def print (w : Manner) (input : Option String) (text : String) : Converter → String
  | .parse _ | .normalize _ => Report.filter w (input.getD "") text
  | .check _ => Report.checked w (input.getD "") text
  | .ofTree _ => Report.filterOfTree w text

/-- A text is read for each command but that of a tree. -/
def Reads (input : Option String) : Converter → Prop
  | .ofTree _ => input = none
  | _ => ∃ text, input = some text

/-! ## What is printed -/

/-- How is printed without colours. -/
def plainManner (o : Options) : Manner :=
  ⟨o.json, o.quiet, .plain, .indented⟩

variable {k : Converter} {o : Options} {input : Option String} {text : String}

theorem print_mannerOf (noColor : o.noColor = true) (s : Settings) (refused : Bool) :
    k.print (Task.mannerOf o s refused) input text = k.print (plainManner o) input text := by
  have hpalette : (Task.mannerOf o s refused).palette = .plain := by
    simp [Task.mannerOf, noColor, Palette.ofBool]
  cases k <;> simp only [print, Report.filter, Report.checked, Report.filterOfTree, hpalette] <;> rfl

/-- As text, the filter stands on a line behind the mark. -/
theorem print_text (json : o.json = false) (quiet : o.quiet = false) :
    k.print (plainManner o) input text = k.mark ++ text ++ "\n" := by
  cases k <;> simp [print, plainManner, Report.filter, Report.checked, Report.filterOfTree, json, quiet,
    mark, Report.checkMark, Palette.green, String.append_assoc]

/-- As JSON, the filter and the text that was read stand under their keys. -/
theorem read_print (json : o.json = true) (reads : k.Reads input) :
    ∃ v, Json.read (k.print (plainManner o) input text) = .ok v
      ∧ v.member? k.key = some (.string text) ∧ v.member? "input" = input.map .string := by
  cases k with
  | parse argument | normalize argument =>
    obtain ⟨i, rfl⟩ := reads
    obtain ⟨v, hv, hmembers⟩ := @Json.read_object [("input", .string i), ("filter", .string text)]
      (by simp) (by simp [Json.nesting]) (by simp [Json.NumbersReadBack, Json.numbers])
    refine ⟨v, ?_, hmembers _, hmembers _⟩
    simp only [print, Report.filter, plainManner, json, if_true, Option.getD_some, hv]
  | check argument =>
    obtain ⟨i, rfl⟩ := reads
    obtain ⟨v, hv, hmembers⟩ := @Json.read_object
      [("valid", .boolean true), ("input", .string i), ("normalized", .string text)]
      (by simp) (by simp [Json.nesting]) (by simp [Json.NumbersReadBack, Json.numbers])
    refine ⟨v, ?_, hmembers _, hmembers _⟩
    simp only [print, Report.checked, plainManner, json, if_true, Option.getD_some, hv]
  | ofTree file =>
    obtain rfl := reads
    obtain ⟨v, hv, hmembers⟩ := @Json.read_object [("filter", .string text)] (by simp)
      (by simp [Json.nesting]) (by simp [Json.NumbersReadBack, Json.numbers])
    refine ⟨v, ?_, hmembers _, hmembers _⟩
    simp only [print, Report.filterOfTree, plainManner, json, if_true, hv]

/-! ## Runs of converters -/

variable {W : Type} [Host (StateM W)]

theorem ofCommand_eq (w : Manner) (k : Converter) :
    (Task.ofCommand w k.command : Task (StateM W) Unit) = (do
      let input ← k.input
      let text ← k.make input
      Task.print (k.print w input text)) := by
  cases k <;> simp [command, Task.ofCommand, Converter.input, make, print]

/-- The options are used for printing alone. -/
theorem withSettings_converter (noColor : o.noColor = true) (k : Converter) :
    (Task.withSettings o k.command : Task (StateM W) Unit) = (do
      let (input, text) ← k.work
      Task.print (k.print (plainManner o) input text)) := by
  simp [Task.withSettings, ofCommand_eq, print_mannerOf noColor, work, reading]

end Converter

namespace Task

variable {W α β : Type}

/-- A task that comes to its end has done its first part. -/
theorem result_bind_ok {t : Task (StateM W) α} {k : α → Task (StateM W) β} {w w' : W}
    {trace later : Trace} {b : β} (h : ((t >>= k).run.run trace).run w = ((.ok b, later), w')) :
    ∃ a mid u, (t.run.run trace).run w = ((.ok a, mid), u)
      ∧ ((k a).run.run mid).run u = ((.ok b, later), w') := by
  rw [run_bind] at h
  rcases ht : (t.run.run trace).run w with ⟨⟨_ | a, mid⟩, u⟩
  · rw [ht] at h
    exact nomatch (Prod.mk.inj (Prod.mk.inj h).1).1
  · rw [ht] at h
    exact ⟨a, mid, u, rfl, h⟩

end Task

namespace Converter

variable {W : Type} [Host (StateM W)] {k : Converter} {o : Options}

/-- What is read is a text, unless a tree is read. -/
theorem reads_of_reading {w w' : W} {trace later : Trace} {input : Option String}
    (h : ((k.reading : Task (StateM W) (Option String)).run.run trace).run w = ((.ok input, later), w')) :
    k.Reads input := by
  obtain ⟨_, _, w₁, -, h⟩ := Task.result_bind_ok h
  obtain ⟨_, _, w₂, -, h⟩ := Task.result_bind_ok h
  cases k with
  | parse argument | normalize argument | check argument =>
    obtain ⟨text, _, w₃, -, h⟩ := Task.result_bind_ok h
    obtain rfl := Except.ok.inj (Prod.mk.inj (Prod.mk.inj h).1).1
    exact ⟨text, rfl⟩
  | ofTree file =>
    obtain rfl := Except.ok.inj (Prod.mk.inj (Prod.mk.inj h).1).1
    rfl

/-- The text that was read is what the first part of the work gives. -/
theorem reading_of_work {w : W} {input : Option String} {text : String}
    (h : (k.work : Task (StateM W) (Option String × String)).result w = .ok (input, text)) :
    (k.reading : Task (StateM W) (Option String)).result w = .ok input ∧ k.Reads input := by
  rcases hrun : ((k.work : Task (StateM W) (Option String × String)).run.run ⟨[], ""⟩).run w with
    ⟨⟨r, later⟩, w'⟩
  rw [Task.result, hrun] at h
  obtain rfl : r = .ok (input, text) := h
  obtain ⟨i, _, u, hreading, hrun⟩ := Task.result_bind_ok hrun
  obtain ⟨t, _, u', -, hrun⟩ := Task.result_bind_ok hrun
  obtain ⟨rfl, -⟩ := Prod.mk.inj (Except.ok.inj (Prod.mk.inj (Prod.mk.inj hrun).1).1)
  exact ⟨by rw [Task.result, hreading], reads_of_reading hreading⟩

variable {R : W → W → Prop} (kept : Task.KeptByReading R)

include kept

theorem keeps_reading (k : Converter) : (k.reading : Task (StateM W) (Option String)).Keeps R := by
  refine Task.keeps_bind kept (Task.keeps_loadSettings kept) fun _ =>
    Task.keeps_bind kept (Task.keeps_ask (kept.variableOf _)) fun _ => ?_
  cases k with
  | parse argument | normalize argument | check argument =>
    exact Task.keeps_bind kept (Task.keeps_filterText kept _) fun _ => Task.keeps_pure kept _
  | ofTree file => exact Task.keeps_pure kept _

theorem keeps_make (k : Converter) (input : Option String) :
    (k.make input : Task (StateM W) String).Keeps R := by
  cases k with
  | parse argument => exact Task.keeps_bind kept (Task.keeps_parse kept _) fun _ => Task.keeps_pure kept _
  | normalize argument | check argument => exact Task.keeps_canonical kept _
  | ofTree file =>
    exact Task.keeps_bind kept (Task.keeps_treeText kept _) fun _ =>
      Task.keeps_bind kept (Task.keeps_need kept _ _) fun _ =>
      Task.keeps_bind kept (Task.keeps_tell kept _) fun _ =>
        Task.keeps_bind kept (Task.keeps_filterOf kept _) fun _ => Task.keeps_pure kept _

/-- Up to the printing a conversion only reads, and prints nothing. -/
theorem keeps_work (k : Converter) : (k.work : Task (StateM W) (Option String × String)).Keeps R :=
  Task.keeps_bind kept (keeps_reading kept k) fun _ =>
    Task.keeps_bind kept (keeps_make kept k _) fun _ => Task.keeps_pure kept _

end Converter

/-! ## Two runs -/

/-- Without events, the outcome is what is printed and what is written about a failure. -/
theorem Outcome.of_silent {o : Options} {rules : LogFilter} (silent : ∀ e, rules.shows e = false)
    (r : Except Failure Unit) (t : Trace) :
    Outcome.of o rules r t = match r with
      | .ok () => ⟨0, t.output, ""⟩
      | .error f => ⟨f.exitStatus, t.output, f.text o.json⟩ := by
  have hnone (events : List Event) : events.filter rules.shows = [] :=
    List.filter_eq_nil_iff.2 fun e _ => by simp [silent]
  cases r <;> simp [Outcome.of, hnone]

/-- The two outcomes say the same, the one as text, the other as JSON: how the run ends, on success the
filter and the text that was read, on failure the message. -/
structure ModesAgree (k : Converter) (reading : Except Failure (Option String)) (plain json : Outcome) :
    Prop where
  exitStatus : plain.exitStatus = json.exitStatus
  success : plain.exitStatus = 0 → plain.errors = "" ∧ json.errors = "" ∧
    ∃ text v input, plain.output = k.mark ++ text ++ "\n" ∧ Json.read json.output = .ok v
      ∧ v.member? k.key = some (.string text)
      ∧ reading = .ok input ∧ v.member? "input" = input.map .string
  failure : plain.exitStatus ≠ 0 → plain.output = "" ∧ json.output = "" ∧
    ∃ message v, plain.errors = "Error: " ++ message ++ "\n" ∧ Json.read json.errors = .ok v
      ∧ (v.member? "error").bind (fun e => e.member? "message") = some (.string message)

section

variable {W Place : Type} [Host (StateM W)] {v : View W Place} {w : W} {k : Converter} {o : Options}

/-- The outcome of a run of a converter. -/
theorem run_of_converter {words : List String} (honest : v.Honest)
    (request : Request.ofArguments words = .run o k.command) (noColor : o.noColor = true)
    (silent : ∀ e, (logFilterOf o (v.variableOf w "RUST_LOG")).shows e = false) :
    ((run words : StateM W Outcome).run w).1
      = match (k.work : Task (StateM W) (Option String × String)).result w with
        | .ok x => ⟨0, k.print (Converter.plainManner o) x.1 x.2, ""⟩
        | .error f => ⟨f.exitStatus, "", f.text o.json⟩ := by
  obtain ⟨r, events, _, w', hrun, rfl, same⟩ :=
    Converter.keeps_work (Task.keptByReading_same honest) k w ⟨[], ""⟩
  have hresult : (k.work : Task (StateM W) (Option String × String)).result w = r := by
    rw [Task.result, hrun]
  rw [run_of_request request, Converter.withSettings_converter noColor, Task.run_bind, hrun, hresult]
  have rules : (Host.variableOf "RUST_LOG" : StateM W (Option String)).run w'
      = (v.variableOf w "RUST_LOG", w') := by
    rw [honest.variableOf, same.variableOf]
  cases r with
  | error f => simp only [rules, Outcome.of_silent silent, String.append_empty]
  | ok x =>
    have printed : ((Task.print (k.print (Converter.plainManner o) x.1 x.2) : Task (StateM W) Unit).run.run
        ⟨events, ""⟩).run w' = ((.ok (), ⟨events, k.print (Converter.plainManner o) x.1 x.2⟩), w') := by
      rw [← String.empty_append (s := k.print (Converter.plainManner o) x.1 x.2)]
      rfl
    simp only [String.append_empty, printed, rules, Outcome.of_silent silent]

/-- **Text mode and JSON mode agree.**  Two runs on one system, with options that differ in `--json`
alone, without colours and without events, end alike; on success the JSON has the filter that stands in
the text, and the text that was read, and on failure it has the message. -/
theorem modes_agree {words jsonWords : List String} (honest : v.Honest)
    (request : Request.ofArguments words = .run o k.command)
    (jsonRequest : Request.ofArguments jsonWords = .run { o with json := true } k.command)
    (json : o.json = false) (quiet : o.quiet = false) (noColor : o.noColor = true)
    (silent : ∀ e, (logFilterOf o (v.variableOf w "RUST_LOG")).shows e = false) :
    ModesAgree k ((k.reading : Task (StateM W) (Option String)).result w)
      ((run words : StateM W Outcome).run w).1 ((run jsonWords : StateM W Outcome).run w).1 := by
  have hplain := run_of_converter honest request noColor silent
  have hjson := run_of_converter honest jsonRequest noColor silent
  rw [hplain, hjson]
  cases hwork : (k.work : Task (StateM W) (Option String × String)).result w with
  | error f =>
    obtain ⟨e, hread, hmessage⟩ := f.read_json_text
    refine ⟨rfl, fun h => absurd h f.exitStatus_ne_zero,
      fun _ => ⟨rfl, rfl, f.message, e, ?_, hread, hmessage⟩⟩
    simp only [Failure.text, json, Bool.false_eq_true, if_false]
  | ok x =>
    obtain ⟨input, text⟩ := x
    obtain ⟨hreading, hreads⟩ := Converter.reading_of_work hwork
    obtain ⟨e, hread, hfilter, hinput⟩ :=
      @Converter.read_print k { o with json := true } input text rfl hreads
    refine ⟨rfl, fun _ => ⟨rfl, rfl, text, e, input, ?_, hread, hfilter, hreading, hinput⟩,
      fun h => absurd rfl h⟩
    exact Converter.print_text json quiet

end

/-- A machine with a filter on standard input that has a quote, a line break and a control in it, and
blanks around it. -/
def pipingMachine : Machine :=
  { bareMachine "config.toml" with input := "\t a EQUALS 'x\"\n\x01' AND (b IS_EMPTY) \n".toUTF8 }

/-- The two modes agree on it, and what was read is the text without the blanks. -/
theorem modes_agree_piping :
    Machine.view.Honest
      ∧ Request.ofArguments ["--no-color", "check", "-"]
        = .run ⟨false, false, false, true⟩ (Converter.check (some "-")).command
      ∧ Request.ofArguments ["--no-color", "check", "--json", "-"]
        = .run ⟨false, false, true, true⟩ (Converter.check (some "-")).command
      ∧ (∀ e, (logFilterOf ⟨false, false, false, true⟩
        (Machine.view.variableOf pipingMachine "RUST_LOG")).shows e = false)
      ∧ (Converter.check (some "-")).reading.result pipingMachine
        = .ok (some "a EQUALS 'x\"\n\x01' AND (b IS_EMPTY)")
      ∧ ((run ["--no-color", "check", "-"] : StateM Machine Outcome).run pipingMachine).1.exitStatus = 0
      ∧ ModesAgree (.check (some "-")) ((Converter.check (some "-")).reading.result pipingMachine)
        ((run ["--no-color", "check", "-"] : StateM Machine Outcome).run pipingMachine).1
        ((run ["--no-color", "check", "--json", "-"] : StateM Machine Outcome).run pipingMachine).1 := by
  have request : Request.ofArguments ["--no-color", "check", "-"]
      = .run ⟨false, false, false, true⟩ (Converter.check (some "-")).command := by decide +kernel
  have jsonRequest : Request.ofArguments ["--no-color", "check", "--json", "-"]
      = .run ⟨false, false, true, true⟩ (Converter.check (some "-")).command := by decide +kernel
  have silent : ∀ e, (logFilterOf ⟨false, false, false, true⟩
      (Machine.view.variableOf pipingMachine "RUST_LOG")).shows e = false := fun e => rfl
  exact ⟨Machine.honest_view, request, jsonRequest, silent, by decide +kernel, by decide +kernel,
    modes_agree Machine.honest_view request jsonRequest rfl rfl rfl silent⟩

end TagQuery
