/-! The command line.

The first word that is no option names a command, and `config` has commands of its own.  Each command is a
level with options of its own; an option may be given once on a level.  Options that concern every command
may stand on any level.  `Request.ofArguments` reads the whole line. -/

namespace TagQuery

/-- An option without a value. -/
inductive Flag where
  | verbose
  | quiet
  | json
  | noColor
  | explain
  | compact
  deriving DecidableEq, Repr

/-- A shell that completions can be written for. -/
inductive Shell where
  | bash
  | zsh
  | fish
  | powershell
  deriving DecidableEq, Repr

def Shell.ofName? : String → Option Shell
  | "bash" => some .bash
  | "zsh" => some .zsh
  | "fish" => some .fish
  | "powershell" => some .powershell
  | _ => none

/-- What is to be done. -/
inductive Command where
  | parse (filter : Option String) (explain : Bool)
  | normalize (filter : Option String)
  | toTree (filter : Option String) (compact : Bool)
  | ofTree (file : Option String)
  | check (filter : Option String)
  | showSettings
  | set (key value : String)
  | showPath
  | completions (shell : Shell)
  | overview
  deriving DecidableEq, Repr

/-- The options that concern every command. -/
structure Options where
  verbose : Bool
  quiet : Bool
  json : Bool
  noColor : Bool
  deriving DecidableEq, Repr

/-- What is wrong with a command line. -/
inductive UsageError where
  | unexpectedArgument (text : String)
  | repeatedFlag (flag : Flag)
  | conflict
  | unknownCommand (text : String)
  | badValue (text : String)
  | missingValue
  deriving DecidableEq, Repr

/-- What a command line asks for. -/
inductive Request where
  | run (options : Options) (command : Command)
  | version (program : String)
  | help
  | refuse (error : UsageError)
  deriving DecidableEq, Repr

namespace Request

/-! ## Levels -/

/-- What a value has to be. -/
inductive ValueRule where
  | any
  | nonempty
  | shell
  deriving DecidableEq, Repr

def ValueRule.accepts : ValueRule → String → Bool
  | .any, _ => true
  | .nonempty, text => !text.isEmpty
  | .shell, text => (Shell.ofName? text).isSome

/-- What may stand on a level. -/
structure Form where
  /-- The name that a version is given for. -/
  program : String
  /-- An option of this level alone. -/
  own : Option Flag
  values : List ValueRule
  /-- How many of the values have to be there. -/
  required : Nat
  commands : List String
  deriving DecidableEq, Repr

/-- What has been read of a level. -/
structure Level where
  flags : List Flag
  values : List String
  /-- The command that was named, and the words behind it. -/
  next : Option (String × List String)
  deriving DecidableEq, Repr

/-- Reading a level ends early where a version or help is asked for, or something is wrong. -/
abbrev Reading (α : Type) := Except Request α

def stopWith {α : Type} (e : UsageError) : Reading α :=
  .error (.refuse e)

namespace Form

/-- The option with this long name. -/
def flagOfName? (f : Form) (name : String) : Option Flag :=
  match name with
  | "verbose" => some .verbose
  | "quiet" => some .quiet
  | "json" => some .json
  | "no-color" => some .noColor
  | "explain" => if f.own = some .explain then some .explain else none
  | "compact" => if f.own = some .compact then some .compact else none
  | _ => none

/-- Adds an option. -/
def addFlag (l : Level) (flag : Flag) : Reading Level :=
  if flag ∈ l.flags then stopWith (.repeatedFlag flag) else .ok { l with flags := flag :: l.flags }

/-- Adds the option with a long name. -/
def addLong (f : Form) (l : Level) (name : String) : Reading Level :=
  if name = "version" then .error (.version f.program)
  else if name = "help" then .error .help
  else
    match f.flagOfName? name with
    | some flag => addFlag l flag
    | none => stopWith (.unexpectedArgument ("--" ++ name))

/-- Adds the option of one letter. -/
def addShort (f : Form) (l : Level) (letter : Char) : Reading Level :=
  if letter = 'V' then .error (.version f.program)
  else if letter = 'h' then .error .help
  else if letter = 'v' then addFlag l .verbose
  else if letter = 'q' then addFlag l .quiet
  else stopWith (.unexpectedArgument (String.ofList ['-', letter]))

/-- Adds a value. -/
def addValue (f : Form) (l : Level) (text : String) : Reading Level :=
  match f.values[l.values.length]? with
  | none => stopWith (.unexpectedArgument text)
  | some rule =>
    if rule.accepts text then .ok { l with values := l.values ++ [text] }
    else stopWith (.badValue text)

/-- Adds words up to the name of a command; behind `--` every word is a value. -/
def addWords (f : Form) (l : Level) (valuesOnly : Bool) : List String → Reading Level
  | [] => .ok l
  | word :: words => do
    match valuesOnly, word.toList with
    | true, _ => f.addWords (← f.addValue l word) true words
    | false, ['-', '-'] => f.addWords l true words
    | false, '-' :: '-' :: name => f.addWords (← f.addLong l (String.ofList name)) false words
    | false, '-' :: letter :: letters =>
      f.addWords (← (letter :: letters).foldlM f.addShort l) false words
    | false, _ =>
      if f.commands.isEmpty then f.addWords (← f.addValue l word) false words
      else if word ∈ f.commands then .ok { l with next := some (word, words) }
      else stopWith (.unknownCommand word)

/-- Reads a level. -/
def read (f : Form) (words : List String) : Reading Level :=
  f.addWords ⟨[], [], none⟩ false words

/-- What a level lacks, or has too much of, once it has ended. -/
def check (f : Form) (l : Level) : Reading Unit :=
  if l.values.length < f.required then stopWith .missingValue
  else if .quiet ∈ l.flags ∧ .verbose ∈ l.flags then stopWith .conflict
  else .ok ()

end Form

/-- The options that stand on some of the levels. -/
def optionsOf (levels : List Level) : Options :=
  let given (flag : Flag) : Bool := levels.any fun l => flag ∈ l.flags
  ⟨given .verbose, given .quiet, given .json, given .noColor⟩

/-! ## Commands -/

/-- The name of the program. -/
def program : String := "tagf"

/-- The commands of a filter or a tree, and of the shell. -/
inductive Verb where
  | parse
  | normalize
  | toTree
  | ofTree
  | check
  | completions
  deriving DecidableEq, Repr

def Verb.ofName? : String → Option Verb
  | "parse" | "p" => some .parse
  | "normalize" | "n" => some .normalize
  | "to-api" => some .toTree
  | "from-api" => some .ofTree
  | "check" => some .check
  | "completions" => some .completions
  | _ => none

def Verb.form : Verb → Form
  | .parse => ⟨program ++ "-parse", some .explain, [.any], 0, []⟩
  | .normalize => ⟨program ++ "-normalize", none, [.any], 0, []⟩
  | .toTree => ⟨program ++ "-to-api", some .compact, [.any], 0, []⟩
  | .ofTree => ⟨program ++ "-from-api", none, [.nonempty], 0, []⟩
  | .check => ⟨program ++ "-check", none, [.any], 0, []⟩
  | .completions => ⟨program ++ "-completions", none, [.shell], 1, []⟩

def Verb.command (verb : Verb) (l : Level) : Command :=
  let value := l.values.head?
  match verb with
  | .parse => .parse value (.explain ∈ l.flags)
  | .normalize => .normalize value
  | .toTree => .toTree value (.compact ∈ l.flags)
  | .ofTree => .ofTree value
  | .check => .check value
  | .completions => .completions ((value.bind Shell.ofName?).getD .bash)

/-- The commands about settings. -/
inductive SettingsVerb where
  | show
  | set
  | path
  deriving DecidableEq, Repr

def SettingsVerb.ofName? : String → Option SettingsVerb
  | "show" => some .show
  | "set" => some .set
  | "path" => some .path
  | _ => none

def SettingsVerb.form : SettingsVerb → Form
  | .show => ⟨program ++ "-config-show", none, [], 0, []⟩
  | .set => ⟨program ++ "-config-set", none, [.any, .any], 2, []⟩
  | .path => ⟨program ++ "-config-path", none, [], 0, []⟩

def SettingsVerb.command (verb : SettingsVerb) (l : Level) : Command :=
  match verb with
  | .show => .showSettings
  | .set => .set (l.values[0]?.getD "") (l.values[1]?.getD "")
  | .path => .showPath

/-- The level of the program itself. -/
def programForm : Form :=
  ⟨program, none, [], 0,
    ["parse", "p", "normalize", "n", "to-api", "from-api", "check", "config", "completions", "help"]⟩

/-- The level of the commands about settings. -/
def settingsForm : Form :=
  ⟨program ++ "-config", none, [], 0, ["show", "set", "path", "help"]⟩

/-- Help about a command whose names are given one behind the other. -/
def helpOnSettings : List String → Request
  | [] => .help
  | name :: names =>
    if name ∈ settingsForm.commands ∧ names.isEmpty then .help
    else .refuse (.unknownCommand name)

/-- Help about the program, or about a command. -/
def helpOn : List String → Request
  | [] => .help
  | "config" :: names => helpOnSettings names
  | name :: names =>
    if name ∈ programForm.commands ∧ names.isEmpty then .help
    else .refuse (.unknownCommand name)

/-! ## The whole line -/

/-- Reads the words behind `config`, and gives the command with the levels that it took. -/
def readSettings (words : List String) : Reading (Command × List Level) := do
  let level ← settingsForm.read words
  match level.next with
  | none =>
    settingsForm.check level
    return (.showSettings, [level])
  | some (name, words) =>
    match SettingsVerb.ofName? name with
    | none => .error (helpOnSettings words)
    | some verb =>
      let inner ← verb.form.read words
      verb.form.check inner
      settingsForm.check level
      return (verb.command inner, [level, inner])

/-- Reads the words behind the name of a command. -/
def readCommand (name : String) (words : List String) : Reading (Command × List Level) :=
  match Verb.ofName? name with
  | some verb => do
    let level ← verb.form.read words
    verb.form.check level
    return (verb.command level, [level])
  | none => if name = "config" then readSettings words else .error (helpOn words)

/-- Reads the words behind the name of the program. -/
def readLine (words : List String) : Reading Request := do
  let level ← programForm.read words
  match level.next with
  | none =>
    programForm.check level
    return .run (optionsOf [level]) .overview
  | some (name, words) =>
    let (command, levels) ← readCommand name words
    programForm.check level
    return .run (optionsOf (level :: levels)) command

/-- What a command line asks for. -/
def ofArguments (words : List String) : Request :=
  match readLine words with
  | .ok r => r
  | .error r => r

end Request

def Flag.text : Flag → String
  | .verbose => "--verbose"
  | .quiet => "--quiet"
  | .json => "--json"
  | .noColor => "--no-color"
  | .explain => "--explain"
  | .compact => "--compact"

def UsageError.message : UsageError → String
  | .unexpectedArgument text => "unexpected argument '" ++ text ++ "' found"
  | .repeatedFlag flag => "the argument '" ++ flag.text ++ "' cannot be used multiple times"
  | .conflict => "the argument '--quiet' cannot be used with '--verbose'"
  | .unknownCommand text => "unrecognized subcommand '" ++ text ++ "'"
  | .badValue text => "invalid value '" ++ text ++ "'"
  | .missingValue => "a required argument was not provided"

end TagQuery
