import TagQuery.Pattern.CharClass
import TagQuery.Text.Word

/-! Patterns: regular expressions as far as their form goes.

    pattern  = sequence ("|" sequence)*
    sequence = (item ("?" | "*" | "+")* | "(?" flags ")")*
    item     = atom | class | group
    group    = "(" pattern ")" | "(?" flags ":" pattern ")" | "(?" "P"? "<" NAME ">" pattern ")"

Nothing is ever matched against a pattern here; `isPattern` says which texts are patterns.  Braces have
no meaning outside of classes: an opening one is refused, as a repetition that is not complete.  The
parser goes from item to item (`step`), and its state holds the groups that are open. -/

namespace TagQuery.Pattern

def maxHeight : Nat := 250

/-! ## States -/

structure Item where
  height : Nat
  repeats : Bool
  deriving DecidableEq, Repr

/-- What has been read of a pattern or of a group. -/
structure Level where
  /-- The heights of the alternatives before the sequence in progress. -/
  alternatives : List Nat
  /-- The items of the sequence in progress, the latest first. -/
  items : List Item
  deriving DecidableEq, Repr

structure State where
  mode : Mode
  names : List (List Char)
  /-- The level in progress. -/
  level : Level
  /-- The levels around it, the innermost first, each with the mode that it goes on in. -/
  outer : List (Mode × Level)
  deriving DecidableEq, Repr

namespace Level

def empty : Level := ⟨[], []⟩

/-- The level with one more item. -/
def add (l : Level) (i : Item) : Level :=
  { l with items := i :: l.items }

def sequenceHeight (l : Level) : Nat :=
  jointHeight (l.items.map Item.height)

/-- The height of all that has been read. -/
def height (l : Level) : Nat :=
  jointHeight (l.sequenceHeight :: l.alternatives)

/-- The level with the next alternative begun. -/
def turn (l : Level) : Level :=
  ⟨l.sequenceHeight :: l.alternatives, []⟩

def repeatLast (l : Level) : Option Level :=
  match l.items with
  | i :: items =>
    if i.repeats then some { l with items := { i with height := i.height + 1 } :: items } else none
  | [] => none

end Level

namespace State

def initial : State := ⟨.initial, [], .empty, []⟩

/-- The state with one more item. -/
def add (s : State) (i : Item) : State :=
  { s with level := s.level.add i }

/-- The state at the start of a group that is read in a mode. -/
def enter (s : State) (m : Mode) : State :=
  { s with mode := m, level := .empty, outer := (s.mode, s.level) :: s.outer }

/-- The state behind the end of a group, if one is open. -/
def leave (s : State) : Option State :=
  match s.outer with
  | (mode, level) :: outer =>
    some { s with mode, level := level.add ⟨s.level.height + 1, true⟩, outer }
  | [] => none

end State

/-! ## Groups -/

def continuesName (c : Char) : Bool :=
  Text.isLetter c || Text.isNumeral c || c == '_' || c == '.' || c == '[' || c == ']'

/-- Reads the name of a group up to the mark behind it. -/
def readGroupName (cs : List Char) : Option (List Char × List Char) :=
  let name := cs.takeWhile (· != '>')
  match name, cs.drop name.length with
  | c :: others, _ :: rest =>
    if Text.startsWord c && others.all continuesName then some (name, rest) else none
  | _, _ => none

/-- Reads flags up to the mark behind them.  Each is there once at most, and those behind a `-` are cleared;
`seen` holds what has been read, the latest first. -/
def readFlags (m : Mode) (seen : List Char) : List Char → Option (Mode × List Char × List Char)
  | [] => none
  | c :: cs =>
    if c = ':' ∨ c = ')' then
      if seen.head? = some '-' then none else some (m, seen, c :: cs)
    else if seen.contains c then none
    else if c = '-' then readFlags m (c :: seen) cs
    else
      match m.set? c !seen.contains '-' with
      | some m => readFlags m (c :: seen) cs
      | none => none

def openNamed (s : State) (cs : List Char) : Option (State × List Char) := do
  let (name, rest) ← readGroupName cs
  if s.names.contains name then none
  else return ({ s with names := name :: s.names }.enter s.mode, rest)

/-- Enters a group behind its opening bracket, or sets flags. -/
def openGroup (s : State) : List Char → Option (State × List Char)
  | '?' :: 'P' :: '<' :: rest => openNamed s rest
  | '?' :: '<' :: rest => openNamed s rest
  | '?' :: cs =>
    match readFlags s.mode [] cs with
    | some (mode, _, ':' :: rest) => some (s.enter mode, rest)
    | some (mode, _ :: _, ')' :: rest) => some ({ s with mode }.add ⟨0, false⟩, rest)
    | _ => none
  | rest => some (s.enter s.mode, rest)

/-! ## Steps -/

/-- The step behind a mark of repetition.  A `?` behind it only changes what is matched. -/
def stepRepeat (s : State) (cs : List Char) : Option (State × List Char) :=
  s.level.repeatLast.map fun level =>
    ({ s with level }, if cs.head? = some '?' then cs.tail else cs)

def stepAtom (s : State) (cs : List Char) : Option (State × List Char) := do
  let (a, rest) ← readAtom s.mode cs
  if a.standsAlone s.mode then return (s.add ⟨0, true⟩, rest) else none

/-- The state behind the next item, with the rest of the text. -/
def step (s : State) (cs : List Char) : Option (State × List Char) :=
  match cs with
  | '(' :: rest => openGroup s (s.mode.skip rest)
  | ')' :: rest => s.leave.map fun s => (s, rest)
  | '|' :: rest => some ({ s with level := s.level.turn }, rest)
  | '[' :: rest =>
    (readClass s.mode rest).map fun r => (s.add ⟨r.1, true⟩, r.2)
  | '?' :: rest | '*' :: rest | '+' :: rest => stepRepeat s rest
  | '\x7b' :: _ => none
  | cs => stepAtom s cs

def run (s : State) (cs : List Char) : Option State :=
  match s.mode.skip cs with
  | [] => some s
  | start =>
    match step s start with
    | some (s, rest) => if _h : rest.length < cs.length then run s rest else none
    | none => none
termination_by cs.length
decreasing_by exact _h

/-- The text is a pattern: every group is closed, and the pattern is not too high. -/
def isPattern (cs : List Char) : Bool :=
  (run .initial cs).any fun s => s.outer.isEmpty && s.level.height ≤ maxHeight

end TagQuery.Pattern
