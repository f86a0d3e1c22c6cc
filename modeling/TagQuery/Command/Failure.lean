import TagQuery.Disk.Basic
import TagQuery.Settings
import TagQuery.Tree.Decode
import TagQuery.Canonical

/-! Why a command fails, and how that is told.

Each failure has a code and an exit status; `Failure.message` has the words and `Failure.json` the same as
a JSON object. -/

namespace TagQuery

/-- Why the settings cannot be read or kept. -/
inductive SettingsError where
  | noPlace
  | unreadable (cause : AccessError)
  | malformed
  | noDirectory (cause : AccessError)
  | unwritable (cause : AccessError)
  | unknownKey (key : String)
  | notBoolean (word : String)
  deriving DecidableEq, Repr

def SettingsError.message : SettingsError → String
  | .noPlace => "Could not determine config directory"
  | .unreadable cause => "Failed to read config: " ++ cause.message
  | .malformed => "Failed to parse config: not a settings document"
  | .noDirectory cause => "Failed to create config directory: " ++ cause.message
  | .unwritable cause => "Failed to write config: " ++ cause.message
  | .unknownKey key =>
    "Unknown config key '" ++ key ++ "'. Valid keys: output.color, output.pretty_json"
  | .notBoolean word =>
    "Invalid boolean value '" ++ word ++ "'. Use true/false, yes/no, 1/0, or on/off"

/-- Why a command fails. -/
inductive Failure where
  | filter (error : FilterError)
  | decode (error : DecodeError)
  | settings (error : SettingsError)
  | access (error : AccessError)
  deriving DecidableEq, Repr

namespace Failure

def code : Failure → String
  | .filter _ => "FILTER_ERROR"
  | .decode _ => "INVALID_TREE"
  | .settings _ => "CONFIG_ERROR"
  | .access _ => "IO_ERROR"

def exitStatus : Failure → Nat
  | .filter _ => 1
  | .access _ => 3
  | .decode _ => 4
  | .settings _ => 5

def message : Failure → String
  | .filter e => "filter error: " ++ e.message
  | .decode e => e.message
  | .settings e => "configuration error: " ++ e.message
  | .access e => "I/O error: " ++ e.message

/-- The word for a kind of error. -/
def kindText : ErrorKind → String
  | .lexical => "lexical"
  | .syntactic => "syntax"
  | .semantic => "semantic"
  | .mapping => "mapping"

/-- What is known of a failure besides its code and message. -/
def details : Failure → List (String × Json)
  | .filter e =>
    ("kind", .string (kindText e.kind))
      :: e.position?.toList.map fun p => ("position", .number (.ofCount p))
  | .decode e => e.line?.toList.map fun l => ("line", .number (.ofCount l))
  | .settings _ | .access _ => []

def json (f : Failure) : Json :=
  .object [("error", .object (Json.sortMembers
    ([("code", .string f.code), ("message", .string f.message)] ++ f.details)))]

/-- What is written about the failure. -/
def text (f : Failure) (asJson : Bool) : String :=
  (if asJson then f.json.text .indented else "Error: " ++ f.message) ++ "\n"

end Failure

end TagQuery
