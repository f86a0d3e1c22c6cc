import TagQuery.Command.Completions
import TagQuery.Command.Failure
import TagQuery.Command.Host
import TagQuery.Command.LogFilter
import TagQuery.Command.Report
import TagQuery.Text.Blank

/-! Running a command.

A `Task` asks a host for what it needs, collects events, prints, and may fail.  `run` reads the command
line, runs the task and gives everything that the run leaves behind: the exit status, the output, and
what was written about events and the failure.  What has been printed stays so when a task fails later. -/

namespace TagQuery

/-- What a run leaves behind, apart from files. -/
structure Outcome where
  exitStatus : Nat
  output : String
  /-- What is written about events and failures. -/
  errors : String
  deriving DecidableEq, Repr

/-- The events of a task so far, and what it has printed. -/
structure Trace where
  events : List Event
  output : String
  deriving DecidableEq, Repr

abbrev Task (m : Type → Type) := ExceptT Failure (StateT Trace m)

section

variable {m : Type → Type} [Monad m] [Host m]

namespace Task

/-- Asks the host. -/
def ask {α : Type} (question : m α) : Task m α :=
  ExceptT.lift (StateT.lift question)

def tell (e : Event) : Task m Unit :=
  modify fun t => { t with events := t.events ++ [e] }

def print (text : String) : Task m Unit :=
  modify fun t => { t with output := t.output ++ text }

/-- Goes on with a value, or fails. -/
def need {ε α : Type} (failure : ε → Failure) (r : Except ε α) : Task m α :=
  match r with
  | .ok a => pure a
  | .error e => throw (failure e)

/-! ## Input -/

def standardInput : Task m String := do
  need .access (textOf (← ask Host.input))

/-- The text of a filter: the argument, or standard input without the blanks around it. -/
def filterText (argument : Option String) : Task m String := do
  match argument with
  | some text => if text = "-" then trimmed else return text
  | none => trimmed
where
  trimmed : Task m String := do
    return String.ofList (Text.trim (← standardInput).toList)

/-- The text of a tree: a file, or standard input. -/
def treeText (file : Option String) : Task m String := do
  match file with
  | some path =>
    if Path.isDash path then standardInput
    else
      let bytes ← need .access (← ask (Host.read path))
      need .access (textOf bytes)
  | none => standardInput

/-! ## Filters and trees -/

def parse (text : String) : Task m Filter := do
  let f ← need .filter (Filter.read text)
  let tokens := (Lexeme.read text).toOption.elim 0 List.length
  tell (.filterParsed text.utf8ByteSize tokens)
  return f

def treeOf (f : Filter) : Task m Tree := do
  let t := f.toTree
  tell (.treeBuilt t.nodeCount)
  return t

/-- The filter that a tree stands for; of a tree that is too large nothing is told. -/
def filterOf (t : Tree) : Task m Filter := do
  match t.toFilter with
  | .ok f =>
    tell (.treeRead t.nodeCount)
    return f
  | .error e =>
    match e with
    | .tooLarge _ => pure ()
    | e => tell (.treeNotRead e)
    throw (.filter (.shape e))

/-- The canonical text of a filter. -/
def canonical (text : String) : Task m String := do
  let f ← filterOf (← treeOf (← parse text))
  tell (.filterNormalized text.utf8ByteSize f.text.utf8ByteSize)
  return f.text

/-! ## Settings -/

/-- The home directory: what the environment has, if it is not empty, else the one on record. -/
def homeDirectory : Task m (Option String) := do
  match ← ask (Host.variableOf "HOME") with
  | some home => if home.isEmpty then ask Host.accountHome else return some home
  | none => ask Host.accountHome

/-- The place of the settings file: what is set for it, or a file in the directory for settings. -/
def settingsPath : Task m String := do
  match ← ask (Host.variableOf "TAGF_CONFIG") with
  | some path => return path
  | none =>
    match ← ask (Host.variableOf "XDG_CONFIG_HOME") with
    | some directory => return inDirectory directory
    | none =>
      match ← homeDirectory with
      | some home => return inDirectory (Path.join home ".config")
      | none => throw (.settings .noPlace)
where
  inDirectory (directory : String) : String :=
    Path.join (Path.join directory "tagf") "config.toml"

def isPresent (path : String) : Task m Bool := do
  return (← ask (Host.kindOf path)).isSome

/-- The settings in the file, or the defaults if there is none. -/
def loadSettings : Task m Settings := do
  let path ← settingsPath
  if ← isPresent path then
    let found ← ask (Host.read path)
    let text ← need (fun e => .settings (.unreadable e)) (found >>= textOf)
    match Settings.ofText? text with
    | some s =>
      tell (.settingsLoaded path s.version)
      return s
    | none => throw (.settings .malformed)
  else
    tell (.noSettingsFile path)
    return .default

def saveSettings (path : String) (s : Settings) : Task m Unit := do
  need (fun e => .settings (.noDirectory e)) (← ask (Host.makeParents path))
  need (fun e => .settings (.unwritable e)) (← ask (Host.write path s.text))

/-- The settings with one of them changed. -/
def changed (s : Settings) (key word : String) : Except SettingsError Settings :=
  match Switch.ofName? key with
  | none => .error (.unknownKey key)
  | some switch =>
    match Switch.stateOf? word with
    | none => .error (.notBoolean word)
    | some state => .ok (s.set switch state)

/-! ## Commands -/

/-- Runs a command. -/
def ofCommand (w : Manner) : Command → Task m Unit
  | .parse argument explain => do
    let text ← filterText argument
    let f ← parse text
    print (if explain then Report.explained w text f else Report.filter w text f.text)
  | .normalize argument => do
    let text ← filterText argument
    let c ← canonical text
    print (Report.filter w text c)
  | .toTree argument compact => do
    let t ← treeOf (← parse (← filterText argument))
    tell (.treeSent t.nodeCount)
    print (Report.tree w compact t)
  | .ofTree file => do
    let t ← need .decode (Tree.ofText (← treeText file))
    tell (.treeDecoded t.nodeCount)
    let f ← filterOf t
    print (Report.filterOfTree w f.text)
  | .check argument => do
    let text ← filterText argument
    let c ← canonical text
    print (Report.checked w text c)
  | .showSettings => do
    let s ← loadSettings
    let path ← settingsPath
    let present ← isPresent path
    print (Report.settings w path present s)
  | .set key word => do
    let s ← loadSettings
    let path ← settingsPath
    saveSettings path (← need .settings (changed s key word))
    print (Report.settingChanged w path key word)
  | .showPath => do
    let path ← settingsPath
    let present ← isPresent path
    print (Report.settingsPath w path present)
  | .completions shell => print shell.completions
  | .overview => print (Report.overview w)

/-- How a command prints with these options, settings and environment. -/
def mannerOf (o : Options) (s : Settings) (colorsRefused : Bool) : Manner where
  json := o.json
  quiet := o.quiet
  palette := .ofBool (!o.noColor && s.color.getD true && !colorsRefused)
  layout := if s.prettyJson.getD true then .indented else .compact

/-- Runs a command as its options and the settings want it. -/
def withSettings (o : Options) (c : Command) : Task m Unit := do
  let s ← loadSettings
  let refused ← ask (Host.variableOf "NO_COLOR")
  ofCommand (mannerOf o s refused.isSome) c

end Task

/-- Which events are shown: all or none as the options want it, else what the environment asks for. -/
def logFilterOf (o : Options) (rules : Option String) : LogFilter :=
  if o.verbose then .all
  else if o.quiet then .none
  else ((rules.bind LogFilter.ofText?).getD .none)

/-- What a task that has ended leaves behind. -/
def Outcome.of (o : Options) (rules : LogFilter) (result : Except Failure Unit) (t : Trace) : Outcome :=
  let log (events : List Event) : String :=
    String.join ((events.filter rules.shows).map (Report.eventLine (.ofBool !o.noColor)))
  match result with
  | .ok () => ⟨0, t.output, log t.events⟩
  | .error f => ⟨f.exitStatus, t.output, log (t.events ++ [.commandFailed f.code]) ++ f.text o.json⟩

def version : String := "0.1.3"

/-- Runs the program with these words behind its name. -/
def run (words : List String) : m Outcome :=
  match Request.ofArguments words with
  | .refuse e => return ⟨2, "", "error: " ++ e.message ++ "\n"⟩
  | .version program => return ⟨0, program ++ " " ++ version ++ "\n", ""⟩
  | .help => return ⟨0, "Usage: tagf [OPTIONS] [COMMAND]\nCommands: " ++ commandNames ++ "\n", ""⟩
  | .run o c => do
    let (result, trace) ← (Task.withSettings o c).run.run ⟨[], ""⟩
    let rules ← Host.variableOf "RUST_LOG"
    return .of o (logFilterOf o rules) result trace

end

end TagQuery
