import TagQuery.Pattern.Atom

/-! Classes of characters in brackets.

    class = "[" "^"? "-"* "]"? part* "]"
    part  = class | "[:" "^"? NAME ":]" | atom | atom "-" atom | "&&" | "--" | "~~"

Classes nest, and so do the operators between their parts; what is read of a class is its height.  A class
that excludes something is no class of ASCII bytes. -/

namespace TagQuery.Pattern

/-- The height of what is made up of parts: a single part has its own, several are one higher than the
highest of them. -/
def jointHeight : List Nat → Nat
  | [] => 0
  | [h] => h
  | hs => hs.foldl max 0 + 1

/-- A class in progress. -/
structure OpenClass where
  /-- The height of what stands before the last operator. -/
  left : Option Nat
  /-- The heights of the items behind it. -/
  items : List Nat
  deriving DecidableEq, Repr

namespace OpenClass

def add (c : OpenClass) (height : Nat) : OpenClass :=
  { c with items := height :: c.items }

/-- The height of what has been read. -/
def height (c : OpenClass) : Nat :=
  jointHeight (c.left.toList ++ [jointHeight c.items])

end OpenClass

def classNames : List String :=
  ["alnum", "alpha", "ascii", "blank", "cntrl", "digit", "graph", "lower", "print", "punct", "space",
    "upper", "word", "xdigit"]

def namedStands (m : Mode) (negated : Bool) : Bool :=
  if m.ofBytes then !negated else !m.ignoresCase

/-- Reads the name of a class behind its opening bracket, and whether it is negated. -/
def readClassName : List Char → Option (Bool × List Char)
  | ':' :: cs =>
    let (negated, cs) := if cs.head? = some '^' then (true, cs.tail) else (false, cs)
    let name := cs.takeWhile (· != ':')
    match cs.drop name.length with
    | ':' :: ']' :: rest =>
      if classNames.contains (String.ofList name) then some (negated, rest) else none
    | _ => none
  | _ => none

/-- Reads dashes at the start of a class: how many there are. -/
def readDashes (m : Mode) (cs : List Char) : Nat × List Char :=
  match _hc : cs with
  | '-' :: rest =>
    let (n, rest) := readDashes m (m.skip rest)
    (n + 1, rest)
  | cs => (0, cs)
termination_by cs.length
decreasing_by
  have := m.length_skip_le rest
  simp only [List.length_cons]
  omega

/-- Reads the start of a class behind its opening bracket: the mark that negates it, and dashes or a closing
bracket that stand for themselves. -/
def openClass (m : Mode) (cs : List Char) : Option (OpenClass × List Char) :=
  let cs := m.skip cs
  let negated := cs.head? = some '^'
  let cs := if negated then m.skip cs.tail else cs
  let (dashes, rest) := readDashes m cs
  let (count, rest) :=
    if dashes = 0 ∧ rest.head? = some ']' then (1, m.skip rest.tail) else (dashes, rest)
  if negated && m.ofBytes then none
  else if count != 0 && !(Atom.char '-' false).standsInClass m then none
  else some (⟨none, List.replicate count 0⟩, rest)

/-- Reads an atom of a class, or two with a dash between them, which must be characters in order. -/
def readClassItem (m : Mode) (cs : List Char) : Option (List Char) := do
  let (first, rest) ← readClassAtom m cs
  let alone := if first.standsInClass m then some (m.skip rest) else none
  match m.skip rest with
  | '-' :: behind =>
    if m.ahead behind = some ']' ∨ m.ahead behind = some '-' then alone
    else
      let (last, rest) ← readClassAtom m (m.skip behind)
      match first, last with
      | .char a _, .char b _ =>
        if a ≤ b ∧ first.standsInClass m ∧ last.standsInClass m then some rest else none
      | _, _ => none
  | _ => alone

inductive ClassStep where
  /-- The class in progress, and those around it. -/
  | inside (inner : OpenClass) (outer : List OpenClass)
  /-- The class is closed and has this height. -/
  | closed (height : Nat)
  deriving DecidableEq, Repr

def closeClass (inner : OpenClass) : List OpenClass → ClassStep
  | [] => .closed (inner.height + 1)
  | around :: outer => .inside (around.add (inner.height + 1)) outer

def stepClass (m : Mode) (inner : OpenClass) (outer : List OpenClass) (cs : List Char) :
    Option (ClassStep × List Char) :=
  match m.skip cs with
  | [] => none
  | '[' :: rest =>
    match readClassName rest with
    | some (negated, rest) =>
      if namedStands m negated then some (.inside (inner.add 0) outer, rest) else none
    | none => (openClass m rest).map fun r => (.inside r.1 (inner :: outer), r.2)
  | ']' :: rest => some (closeClass inner outer, rest)
  | '&' :: '&' :: rest | '-' :: '-' :: rest | '~' :: '~' :: rest =>
    some (.inside ⟨some inner.height, []⟩ outer, rest)
  | start => (readClassItem m start).map fun rest => (.inside (inner.add 0) outer, rest)

/-- Reads the rest of a class, and gives its height. -/
def finishClass (m : Mode) (inner : OpenClass) (outer : List OpenClass) (cs : List Char) :
    Option (Nat × List Char) :=
  match stepClass m inner outer cs with
  | none => none
  | some (.closed height, rest) => some (height, rest)
  | some (.inside inner outer, rest) =>
    if _h : rest.length < cs.length then finishClass m inner outer rest else none
termination_by cs.length
decreasing_by exact _h

def readClass (m : Mode) (cs : List Char) : Option (Nat × List Char) := do
  let (inner, rest) ← openClass m cs
  finishClass m inner [] rest

end TagQuery.Pattern
