import TagQuery.Command.Event
import TagQuery.Command.Table
import TagQuery.Json.Printer
import TagQuery.Settings
import TagQuery.Tree.Encode

/-! What the commands print.

Every command prints text or JSON.  Objects that stand for a whole answer have their keys in order, except
that what was read stands before what was made of it. -/

namespace TagQuery

/-- How a command prints. -/
structure Manner where
  json : Bool
  quiet : Bool
  palette : Palette
  /-- The layout of trees. -/
  layout : Json.Layout
  deriving DecidableEq, Repr

namespace Report

def jsonText (v : Json) : String :=
  v.text .indented ++ "\n"

/-- A filter that was made of an input. -/
def filter (m : Manner) (input text : String) : String :=
  if m.json then jsonText (.object [("input", .string input), ("filter", .string text)])
  else text ++ "\n"

/-- A filter that was made of a tree. -/
def filterOfTree (m : Manner) (text : String) : String :=
  if m.json then jsonText (.object [("filter", .string text)]) else text ++ "\n"

/-- A tree; it is JSON in any case. -/
def tree (m : Manner) (compact : Bool) (t : Tree) : String :=
  t.text (if compact then .compact else m.layout) ++ "\n"

def checkMark (p : Palette) : String :=
  p.green "✓"

/-- A filter that is valid. -/
def checked (m : Manner) (input canonical : String) : String :=
  if m.json then
    jsonText (.object [("valid", .boolean true), ("input", .string input),
      ("normalized", .string canonical)])
  else if m.quiet then ""
  else checkMark m.palette ++ " valid: " ++ canonical ++ "\n"

def valueJson : Value → Json
  | .string text => .string text
  | .number value => .number value
  | .boolean value => .boolean value

/-- A condition as JSON; what it has not is left out. -/
def conditionJson (c : Condition) : Json :=
  let e := c.entity
  .object <| Json.sortMembers <|
    [("entity", .string e.name), ("operator", .string c.operator.name)]
      ++ (e.key.toList.map fun key => ("tag_key", .string key))
      ++ (e.origin.toList.map fun origin => ("origin", .string origin.key))
      ++ (c.value?.toList.map fun v => ("value", valueJson v))

/-- A filter with the list of its conditions. -/
def explained (m : Manner) (input : String) (f : Filter) : String :=
  if m.json then
    jsonText (.object [("filter", .string f.text), ("input", .string input),
      ("primaries", .array (f.conditions.map conditionJson))])
  else (if m.quiet then "" else f.text ++ "\n\n") ++ Table.ofFilter m.palette f

/-- The settings, and the place of their file. -/
def settings (m : Manner) (path : String) (present : Bool) (s : Settings) : String :=
  if m.json then
    jsonText (.object [
      ("config", .object [
        ("output", .object (s.members.map fun x => (x.1, .boolean x.2))),
        ("version", .number (.ofCount s.version))]),
      ("exists", .boolean present), ("path", .string path)])
  else if m.quiet then ""
  else
    m.palette.bold (m.palette.green "Configuration") ++ "\n\nFile: " ++ path ++ "\nExists: "
      ++ Text.booleanText present ++ "\n\n"
      ++ if present then
          "[output]\n" ++ String.join
            (s.members.map fun x => "  " ++ x.1 ++ ": " ++ Text.booleanText x.2 ++ "\n")
        else "(No config file exists. Run 'tagf config set <key> <value>' to create one.)\n"

def settingChanged (m : Manner) (path key value : String) : String :=
  if m.json then
    jsonText (.object [("key", .string key), ("path", .string path),
      ("status", .string "success"), ("value", .string value)])
  else if m.quiet then ""
  else "Set " ++ key ++ " = " ++ value ++ "\n"

def settingsPath (m : Manner) (path : String) (present : Bool) : String :=
  if m.json then jsonText (.object [("exists", .boolean present), ("path", .string path)])
  else path ++ "\n"

def overview (m : Manner) : String :=
  if m.quiet then ""
  else "tagf - tag filter expression tool\nUse --help for usage information\n"

def eventLine (p : Palette) (e : Event) : String :=
  p.blue "DEBUG" ++ " " ++ e.message
    ++ String.join (e.fields.map fun x => " " ++ p.italic x.1 ++ p.dimmed "=" ++ x.2) ++ "\n"

end Report

end TagQuery
