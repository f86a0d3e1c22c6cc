import TagQuery.Toml.Scalar

/-! TOML documents from text.

A document is read statement by statement, and the statements are then put together.  Arrays and braced
tables nest 79 deep at most and keys have 79 parts at most.  Every loop goes on only where it has left a
shorter text, so that none outlives the text. -/

namespace TagQuery.Toml

/-- How deep arrays and braced tables may be nested, and how many parts a key may have. -/
def maxDepth : Nat := 79

/-! ## Blanks and ends of lines -/

/-- The text behind a comment that starts at the beginning. -/
def skipComment : List Char → List Char
  | '#' :: rest => rest.dropWhile isPlain
  | cs => cs

/-- The text behind the end of a line, of which only blanks and a comment are left. -/
def endLine (cs : List Char) : Option (List Char) :=
  match skipComment (skipGap cs) with
  | [] => some []
  | rest => readBreak rest

/-- The text behind blanks, comments and line breaks. -/
def skipLines (cs : List Char) : List Char :=
  let rest := skipComment (skipGap cs)
  match readBreak rest with
  | some rest => if _h : rest.length < cs.length then skipLines rest else rest
  | none => rest
termination_by cs.length
decreasing_by exact _h

/-! ## Keys -/

def isBareChar (c : Char) : Bool :=
  c.isAlphanum || c == '_' || c == '-'

def readKeyPart (cs : List Char) : Option (String × List Char) :=
  match cs with
  | '"' :: rest => (readLine '"' rest).map fun r => (String.ofList r.1, r.2)
  | '\'' :: rest => (readLine '\'' rest).map fun r => (String.ofList r.1, r.2)
  | cs =>
    let bare := cs.takeWhile isBareChar
    if bare.isEmpty then none else some (String.ofList bare, cs.dropWhile isBareChar)

/-- Reads the parts of a key, with points between them. -/
def readKeyParts (cs : List Char) : Option (List String × List Char) := do
  let (part, rest) ← readKeyPart (skipGap cs)
  match skipGap rest with
  | '.' :: rest =>
    if _h : rest.length < cs.length then
      let (parts, rest) ← readKeyParts rest
      return (part :: parts, rest)
    else none
  | rest => return ([part], rest)
termination_by cs.length
decreasing_by exact _h

def readKey (cs : List Char) : Option (Key × List Char) := do
  let (parts, rest) ← readKeyParts cs
  if maxDepth < parts.length then none
  else return (⟨parts.dropLast, ← parts.getLast?⟩, rest)

/-! ## Items -/

/-- Reads the items of an array behind its opening bracket, each with `item`. -/
def readItems (item : List Char → Option (Item × List Char)) (cs : List Char) :
    Option (List Item × List Char) :=
  match skipLines cs with
  | ']' :: rest => some ([], rest)
  | start => do
    let (x, rest) ← item start
    match skipLines rest with
    | ']' :: rest => return ([x], rest)
    | ',' :: rest =>
      if _h : rest.length < cs.length then
        let (xs, rest) ← readItems item rest
        return (x :: xs, rest)
      else none
    | _ => none
termination_by cs.length
decreasing_by exact _h

def readEntry (item : List Char → Option (Item × List Char)) (cs : List Char) :
    Option ((Key × Item) × List Char) := do
  let (key, rest) ← readKey cs
  let rest ← readWord ['='] rest
  let (x, rest) ← item (skipGap rest)
  return ((key, x), rest)

/-- Reads the entries of a braced table from the first key on. -/
def readBraced (item : List Char → Option (Item × List Char)) (cs : List Char) :
    Option (List (Key × Item) × List Char) := do
  let (e, rest) ← readEntry item cs
  match skipGap rest with
  | '\x7d' :: rest => return ([e], rest)
  | ',' :: rest =>
    if _h : rest.length < cs.length then
      let (es, rest) ← readBraced item rest
      return (e :: es, rest)
    else none
  | _ => none
termination_by cs.length
decreasing_by exact _h

/-- The braced table with these entries, unless one does not fit. -/
def bracedTable (es : List (Key × Item)) : Option Item :=
  (es.foldlM (fun es e => Entries.set e.1 e.2 es) []).map (.table .braced)

/-- Reads an item that may have arrays and braced tables nested `levels` deep. -/
def readItem (levels : Nat) (cs : List Char) : Option (Item × List Char) :=
  match cs with
  | '[' :: rest =>
    match levels with
    | 0 => none
    | levels + 1 => (readItems (readItem levels) rest).map fun r => (.array r.1, r.2)
  | '\x7b' :: rest =>
    match levels with
    | 0 => none
    | levels + 1 =>
      match skipGap rest with
      | '\x7d' :: rest => some (.table .braced [], rest)
      | rest => do
        let (es, rest) ← readBraced (readItem levels) rest
        return (← bracedTable es, rest)
  | cs => readScalar cs

/-! ## Documents -/

/-- Reads a statement up to the end of its line. -/
def readStatement (cs : List Char) : Option (Statement × List Char) :=
  match cs with
  | '[' :: '[' :: rest => do
    let (key, rest) ← readKey rest
    let rest ← readWord [']', ']'] rest
    return (.element key, ← endLine rest)
  | '[' :: rest => do
    let (key, rest) ← readKey rest
    let rest ← readWord [']'] rest
    return (.table key, ← endLine rest)
  | cs => do
    let ((key, x), rest) ← readEntry (readItem maxDepth) cs
    return (.entry key x, ← endLine rest)

def readStatements (cs : List Char) : Option (List Statement) :=
  match skipLines cs with
  | [] => some []
  | start => do
    let (s, rest) ← readStatement start
    if _h : rest.length < cs.length then
      let ss ← readStatements rest
      return s :: ss
    else none
termination_by cs.length
decreasing_by exact _h

/-- The text behind a byte order mark, if it starts with one. -/
def skipMark : List Char → List Char
  | '\uFEFF' :: rest => rest
  | cs => cs

def Document.ofText? (text : String) : Option Document := do
  let ss ← readStatements (skipMark text.toList)
  Document.ofStatements ss

end TagQuery.Toml
