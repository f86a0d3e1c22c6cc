/-! TOML documents as tables.

A table lists its entries, each key once.  `TableKind` records how a table came into being, because that
decides what may still be added to it: a header may extend every table that is not written in braces, while
a dotted key may only extend tables that no header has named.  `Statement` is one line of a document, and
`Entries.add` is what the line does. -/

namespace TagQuery.Toml

/-- How a table came into being. -/
inductive TableKind where
  /-- A header names it. -/
  | named
  /-- It holds a table that a header names. -/
  | implied
  /-- A dotted key runs through it. -/
  | dotted
  /-- It is written in braces. -/
  | braced
  deriving DecidableEq, Repr

inductive Item where
  | string (text : String)
  | integer (value : Int)
  /-- A number with a fraction or an exponent, as it is written. -/
  | float (spelling : String)
  | boolean (value : Bool)
  /-- A date, a time of day or both, as they are written. -/
  | moment (spelling : String)
  | array (items : List Item)
  | table (kind : TableKind) (entries : List (String × Item))
  /-- A row of tables that headers in double brackets name, the latest first. -/
  | tables (elements : List (List (String × Item)))
  deriving Repr, Inhabited

abbrev Entries := List (String × Item)

/-- A key: the tables it runs through, and the name in the last of them. -/
structure Key where
  path : List String
  name : String
  deriving DecidableEq, Repr

inductive Statement where
  /-- The statements behind this one are about a table. -/
  | table (key : Key)
  /-- The statements behind this one are about a new table in a row. -/
  | element (key : Key)
  /-- An item under a key. -/
  | entry (key : Key) (item : Item)
  deriving Repr

namespace Entries

/-- The entries with another item under a key that they have. -/
def replace (key : String) (item : Item) (es : Entries) : Entries :=
  es.map fun e => if e.1 = key then (key, item) else e

/-- The entries with one more, unless the key is taken. -/
def insertNew (key : String) (item : Item) (es : Entries) : Option Entries :=
  match es.lookup key with
  | none => some (es ++ [(key, item)])
  | some _ => none

/-- Changes the table at the end of a path.  On the way only tables that `open?` accepts are entered, a row
of tables through its latest one, and missing tables come into being as `made`. -/
def updateAt (made : TableKind) (open? : TableKind → Bool)
    (change : TableKind → Entries → Option Entries) :
    List String → TableKind → Entries → Option Entries
  | [], kind, es => change kind es
  | key :: path, _, es =>
    match es.lookup key with
    | none => do
      let inner ← updateAt made open? change path made []
      return es ++ [(key, .table made inner)]
    | some (.table kind inner) =>
      if open? kind then do
        let inner ← updateAt made open? change path kind inner
        return es.replace key (.table kind inner)
      else none
    | some (.tables (latest :: earlier)) => do
      let latest ← updateAt made open? change path .named latest
      return es.replace key (.tables (latest :: earlier))
    | some _ => none

/-- Changes the table that a header's path leads to. -/
def updateNamed (change : Entries → Option Entries) (path : List String) (es : Entries) :
    Option Entries :=
  updateAt .implied (· != .braced) (fun _ => change) path .named es

/-- Puts an item under a dotted key.  The key may run through tables that no header has named; the last of
them has to come from a dotted key itself. -/
def set (key : Key) (item : Item) (es : Entries) : Option Entries :=
  updateAt .dotted (fun kind => kind == .dotted || kind == .implied)
    (fun kind es =>
      if key.path.isEmpty || kind == .dotted then es.insertNew key.name item else none)
    key.path .named es

/-- Opens the table that a header names: a new one, or one that was only implied. -/
def openTable (key : Key) : Entries → Option Entries :=
  updateNamed
    (fun es =>
      match es.lookup key.name with
      | none => some (es ++ [(key.name, .table .named [])])
      | some (.table .implied inner) => some (es.replace key.name (.table .named inner))
      | some _ => none)
    key.path

/-- Opens a new table in the row that a header in double brackets names. -/
def openElement (key : Key) : Entries → Option Entries :=
  updateNamed
    (fun es =>
      match es.lookup key.name with
      | none => some (es ++ [(key.name, .tables [[]])])
      | some (.tables elements) => some (es.replace key.name (.tables ([] :: elements)))
      | some _ => none)
    key.path

end Entries

/-- A document that has been read up to some statement: its entries, and the path of the table that the next
statements are about. -/
structure Document where
  entries : Entries
  current : List String
  deriving Repr

namespace Document

def empty : Document := ⟨[], []⟩

/-- The document behind one more statement, unless the statement does not fit. -/
def add (d : Document) : Statement → Option Document
  | .table key => do return ⟨← d.entries.openTable key, key.path ++ [key.name]⟩
  | .element key => do return ⟨← d.entries.openElement key, key.path ++ [key.name]⟩
  | .entry key item => do return ⟨← d.entries.updateNamed (·.set key item) d.current, d.current⟩

/-- The document that statements make up, unless one of them does not fit. -/
def ofStatements (ss : List Statement) : Option Document :=
  ss.foldlM add empty

end Document

end TagQuery.Toml
