import TagQuery.Command.Event
import TagQuery.Pattern.Basic
import TagQuery.Text.Extent

/-! Which events are shown.

A `LogFilter` is a list of rules, written with commas between them; for each event the most specific
rule that covers it decides.

    rule  = level | source | source? scope ("=" level?)? | source "=" level?
    scope = "[" span? "]" | "[" span? "\x7b" field ("=" value)? "\x7d" "]"

A source without a level shows everything.  Spans are stretches of work with a name, and values of
fields are values of spans; this program has none, so that a rule about one covers no event.  A value is
a number or a pattern. -/

namespace TagQuery

/-! ## Levels -/

inductive LogLevel where
  | off
  | error
  | warn
  | info
  | debug
  | trace
  deriving DecidableEq, Repr

namespace LogLevel

/-- The levels from the one that shows least, with their names. -/
def names : List (String × LogLevel) :=
  [("off", .off), ("error", .error), ("warn", .warn), ("info", .info), ("debug", .debug),
    ("trace", .trace)]

/-- The number that a row of digits stands for; a `+` may stand before it. -/
def numberOf? (cs : List Char) : Option Nat :=
  let ds := if cs.head? = some '+' then cs.tail else cs
  if ds.isEmpty || !ds.all isDigit then none else some (Number.valueOfDigits ds)

/-- The level that a number or a name stands for; case does not matter. -/
def ofChars? (cs : List Char) : Option LogLevel :=
  match numberOf? cs with
  | some n => names[n]?.map Prod.snd
  | none => (names.find? fun x => Text.sameWord cs x.1.toList).map Prod.snd

/-- Events are of the level `debug`. -/
def showsEvents : LogLevel → Bool
  | .debug | .trace => true
  | _ => false

end LogLevel

/-! ## Rules -/

/-- Which events of a source a rule is about. -/
inductive LogScope where
  | every
  /-- Those that have this field. -/
  | field (name : String)
  /-- Those inside spans. -/
  | spans
  deriving DecidableEq, Repr

/-- How much is shown of the events in a scope, from the sources whose names start with `start`, or from
all sources. -/
structure LogRule where
  start : Option String
  scope : LogScope
  level : LogLevel
  deriving DecidableEq, Repr

namespace LogScope

def includes (s : LogScope) (e : Event) : Bool :=
  match s with
  | .every => true
  | .field name => e.has name
  | .spans => false

/-- The text is that of a number; words for numbers count. -/
def isNumberText (cs : List Char) : Bool :=
  let unsigned := if cs.head? = some '+' ∨ cs.head? = some '-' then cs.tail else cs
  let whole := unsigned.takeWhile isDigit
  let (fraction, rest) := NumberLiteral.scanFraction (unsigned.dropWhile isDigit)
  let (exponent, rest) := ExponentPart.scan rest
  ["inf", "infinity", "nan"].any (fun w => Text.sameWord unsigned w.toList)
    || (!(whole ++ fraction.getD []).isEmpty && exponent.all (!·.digits.isEmpty) && rest.isEmpty)

/-- What a text in braces asks for: a field, or a value of one, which ends where a second `=` stands. -/
def ofBraced? (span field : List Char) : Option LogScope :=
  match field.dropWhile (· != '=') with
  | [] => some (if span.isEmpty then .field (String.ofList field) else .spans)
  | _ :: cs =>
    let value := cs.takeWhile (· != '=')
    if isNumberText value || Pattern.isPattern value then some .spans else none

/-- The scope behind its opening bracket, with what is left of `shape` and of `text`. -/
def read (shape text : List Char) : Option (LogScope × List Char × List Char) :=
  let span := shape.takeWhile fun c => c != ']' && c != '\x7b'
  let text := Text.dropBytes (Text.byteLength span + 1) text
  match shape.drop span.length with
  | ']' :: shape => some (.spans, shape, text)
  | '\x7b' :: shape =>
    let field := shape.takeWhile fun c => c != '\x7d'
    match shape.drop field.length with
    | '\x7d' :: ']' :: shape =>
      if field.isEmpty then none
      else
        (ofBraced? span (Text.takeBytes (Text.byteLength field) text)).map fun scope =>
          (scope, shape, Text.dropBytes (Text.byteLength field + 2) text)
    | _ => none
  | _ => none

end LogScope

namespace LogRule

/-- A rule as it is written: its source, its scope, and the text of its level. -/
structure Parts where
  source : Option (List Char)
  scope : LogScope
  level : Option (List Char)
  deriving DecidableEq, Repr

def startsSource (c : Char) : Bool :=
  Text.isLetter c || Text.isNumeral c || c == '-' || c == ':' || c == '_'

def partsBehind (source : Option (List Char)) (shape text : List Char) : Option Parts :=
  match shape with
  | '=' :: _ => some ⟨source, .every, some (Text.dropBytes 1 text)⟩
  | '[' :: shape =>
    match LogScope.read shape (Text.dropBytes 1 text) with
    | some (scope, [], _) => some ⟨source, scope, none⟩
    | some (scope, '=' :: _, text) => some ⟨source, scope, some (Text.dropBytes 1 text)⟩
    | _ => none
  | _ => some ⟨source, .every, none⟩

/-- The parts of a rule.  `shape` tells where each part starts and ends, and the part is what stands at the
same positions of `text`. -/
def parts (shape text : List Char) : Option Parts :=
  match shape with
  | [] => none
  | c :: _ =>
    if c = '[' then partsBehind none shape text
    else if startsSource c then
      let source := shape.takeWhile fun c => c != '=' && c != '['
      let behind := shape.drop source.length
      let size := Text.byteLength source
      partsBehind (some (if behind.isEmpty then text else Text.takeBytes size text)) behind
        (Text.dropBytes size text)
    else none

/-- The rule that parts make up.  A source that is the name of a level is a level for all sources. -/
def ofParts? (p : Parts) : Option LogRule :=
  let start := p.source.map String.ofList
  match p.level with
  | some [] => some ⟨start, p.scope, .trace⟩
  | some text => (LogLevel.ofChars? text).map fun level => ⟨start, p.scope, level⟩
  | none =>
    match p.scope, p.source.bind LogLevel.ofChars? with
    | .every, some level => some ⟨none, .every, level⟩
    | scope, _ => some ⟨start, scope, .trace⟩

/-- The rule that a text stands for.  Its shape is that of the text without the blanks around it, so that
blanks in front of a rule move all its parts, and blanks behind it belong to the last one. -/
def ofChars? (cs : List Char) : Option LogRule :=
  parts (Text.trim cs) cs >>= ofParts?

def covers (r : LogRule) (e : Event) : Bool :=
  r.start.all (fun s => s.toList.isPrefixOf e.source.toList) && r.scope.includes e

/-- How much of a source's name the rule asks for; a rule for all sources asks for least. -/
def reach (r : LogRule) : Nat :=
  match r.start with
  | some s => s.toList.length + 1
  | none => 0

/-- Of two rules about one event, `r` is at least as specific as `s`: it asks for more of the source's name,
or for as much and for a field, the field with the greater name being the more specific one. -/
def isAsSpecificAs (r s : LogRule) : Bool :=
  if r.reach = s.reach then
    match r.scope, s.scope with
    | .field x, .field y => !decide (x < y)
    | _, .field _ => false
    | _, _ => true
  else decide (s.reach < r.reach)

end LogRule

/-! ## Filters -/

abbrev LogFilter := List LogRule

namespace LogFilter

/-- The rules in a text, with commas between them. -/
def ofText? (text : String) : Option LogFilter :=
  ((split text.toList).filter fun cs => !cs.isEmpty).mapM LogRule.ofChars?
where
  split : List Char → List (List Char)
    | [] => [[]]
    | c :: cs =>
      match split cs with
      | [] => [[c]]
      | s :: ss => if c = ',' then [] :: s :: ss else (c :: s) :: ss

/-- The rule that decides about an event: the most specific one, of two equal ones the later. -/
def ruleFor (f : LogFilter) (e : Event) : Option LogRule :=
  f.foldl (fun best r => if r.covers e && best.all r.isAsSpecificAs then some r else best) none

def shows (f : LogFilter) (e : Event) : Bool :=
  (f.ruleFor e).any fun r => r.level.showsEvents

def all : LogFilter := [⟨none, .every, .debug⟩]

def none : LogFilter := []

end LogFilter

end TagQuery
