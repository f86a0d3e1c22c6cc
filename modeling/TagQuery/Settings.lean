import TagQuery.Text.AsciiCase
import TagQuery.Text.Boolean
import TagQuery.Number.Decimal
import TagQuery.Toml.Reader

/-! Settings, and the file that keeps them.

The file is a TOML document with a version and a table of switches.  `Settings.ofText?` reads it, and
`Settings.text` is the file that is saved. -/

namespace TagQuery

inductive Switch where
  /-- Whether output may be coloured. -/
  | color
  /-- Whether trees are laid out on several lines. -/
  | prettyJson
  deriving DecidableEq, Repr

/-- The settings.  A switch that is not set has a default where it is used. -/
structure Settings where
  version : Nat
  color : Option Bool
  prettyJson : Option Bool
  deriving DecidableEq, Repr

namespace Switch

/-- The switch with this name on the command line. -/
def ofName? : String → Option Switch
  | "output.color" => some .color
  | "output.pretty_json" => some .prettyJson
  | _ => none

/-- The key of the switch in the file. -/
def key : Switch → String
  | .color => "color"
  | .prettyJson => "pretty_json"

/-- The state of a switch that a word stands for; case does not matter. -/
def stateOf? (word : String) : Option Bool :=
  let isWord (w : String) : Bool := Text.sameWord word.toList w.toList
  if ["true", "yes", "1", "on"].any isWord then some true
  else if ["false", "no", "0", "off"].any isWord then some false
  else none

end Switch

namespace Settings

/-- The settings without a file. -/
def default : Settings := ⟨1, none, none⟩

def switch (s : Settings) : Switch → Option Bool
  | .color => s.color
  | .prettyJson => s.prettyJson

def set (s : Settings) (switch : Switch) (state : Bool) : Settings :=
  match switch with
  | .color => { s with color := some state }
  | .prettyJson => { s with prettyJson := some state }

/-- The switches that are set, with their keys in the file. -/
def members (s : Settings) : List (String × Bool) :=
  [Switch.color, .prettyJson].filterMap fun w => (s.switch w).map fun state => (w.key, state)

/-! ## Reading -/

/-- The version in the file: an integer of 32 bits. -/
def versionOf? (es : Toml.Entries) : Option Nat :=
  match es.lookup "version" with
  | none => some default.version
  | some (.integer n) => if 0 ≤ n ∧ n ≤ 4294967295 then some n.toNat else none
  | some _ => none

/-- The state of a switch in its table: a boolean, or not there. -/
def stateIn? (es : Toml.Entries) (switch : Switch) : Option (Option Bool) :=
  match es.lookup switch.key with
  | none => some none
  | some (.boolean b) => some (some b)
  | some _ => none

/-- The states of the two switches: from their table, or from an array that starts with both.  A moment has
parts of its own, and none of them is a switch. -/
def statesOf? (es : Toml.Entries) : Option (Option Bool × Option Bool) :=
  match es.lookup "output" with
  | none | some (.moment _) => some (none, none)
  | some (.table _ es) => do return (← stateIn? es .color, ← stateIn? es .prettyJson)
  | some (.array (.boolean color :: .boolean prettyJson :: _)) => some (some color, some prettyJson)
  | some _ => none

/-- The settings in a file; entries that are no settings are passed over. -/
def ofText? (text : String) : Option Settings := do
  let d ← Toml.Document.ofText? text
  let (color, prettyJson) ← statesOf? d.entries
  return ⟨← versionOf? d.entries, color, prettyJson⟩

/-! ## Writing -/

/-- The file that keeps the settings. -/
def text (s : Settings) : String :=
  "version = " ++ Number.countText s.version ++ "\n\n[output]\n"
    ++ String.join (s.members.map fun m => m.1 ++ " = " ++ Text.booleanText m.2 ++ "\n")

end Settings

end TagQuery
