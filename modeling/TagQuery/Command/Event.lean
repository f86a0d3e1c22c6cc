import TagQuery.Canonical

/-! What a run tells about its work.

An `Event` is something that happened, told by one part of the program, with the facts that it is about. -/

namespace TagQuery

/-- Something that happened in a run. -/
inductive Event where
  | noSettingsFile (path : String)
  | settingsLoaded (path : String) (version : Nat)
  | filterParsed (inputBytes tokens : Nat)
  | treeBuilt (nodes : Nat)
  | treeSent (nodes : Nat)
  | treeDecoded (nodes : Nat)
  | treeRead (nodes : Nat)
  | treeNotRead (error : ShapeError)
  | filterNormalized (inputBytes outputBytes : Nat)
  | commandFailed (code : String)
  deriving DecidableEq, Repr

namespace Event

/-- The part of the program that tells of the event. -/
def source : Event → String
  | .noSettingsFile _ | .settingsLoaded .. => "tagf::commands::config"
  | .filterParsed .. => "tagfilter_rs::parser"
  | .treeBuilt _ | .treeRead _ | .treeNotRead _ => "tagfilter_rs::mapper"
  | .treeSent _ | .treeDecoded _ => "tagf::commands::convert"
  | .filterNormalized .. => "tagfilter_rs"
  | .commandFailed _ => "tagf"

def message : Event → String
  | .noSettingsFile _ => "no config file, using defaults"
  | .settingsLoaded .. => "loaded config"
  | .filterParsed .. => "parsed tag filter"
  | .treeBuilt _ => "mapped expression to tag filter tree"
  | .treeSent _ => "built API tree"
  | .treeDecoded _ => "decoded API tree"
  | .treeRead _ => "mapped tag filter tree to expression"
  | .treeNotRead _ => "failed to map tag filter tree"
  | .filterNormalized .. => "normalized tag filter"
  | .commandFailed _ => "command failed"

/-- What the event is about, name by name. -/
def fields : Event → List (String × String)
  | .noSettingsFile path => [("path", path)]
  | .settingsLoaded path version => [("path", path), ("version", Number.countText version)]
  | .filterParsed inputBytes tokens =>
    [("input_len", Number.countText inputBytes), ("token_count", Number.countText tokens)]
  | .treeBuilt nodes | .treeSent nodes | .treeDecoded nodes | .treeRead nodes =>
    [("nodes", Number.countText nodes)]
  | .treeNotRead error => [("error", error.message)]
  | .filterNormalized inputBytes outputBytes =>
    [("input_len", Number.countText inputBytes), ("output_len", Number.countText outputBytes)]
  | .commandFailed code => [("code", "\"" ++ code ++ "\"")]

/-- The event has a fact with this name; the message is one as well. -/
def has (e : Event) (name : String) : Bool :=
  name == "message" || e.fields.any fun x => x.1 == name

end Event

end TagQuery
