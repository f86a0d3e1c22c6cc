import TagQuery.Filter.Parser
import TagQuery.Tree.OfFilter
import TagQuery.Tree.ToFilter

/-! The canonical form of a filter: the form in which it is read back once it is stored as a tree. -/

namespace TagQuery

/-- Why a text has no canonical form. -/
inductive FilterError where
  | read (error : ReadError)
  | shape (error : ShapeError)
  deriving DecidableEq, Repr

namespace FilterError

def kind : FilterError → ErrorKind
  | .read e => e.kind
  | .shape _ => .mapping

/-- The byte at which the error is found, if it is found in a text. -/
def position? : FilterError → Option Nat
  | .read e => e.position?
  | .shape _ => none

def message : FilterError → String
  | .read e => e.message
  | .shape e => e.message

end FilterError

def Filter.read (text : String) : Except FilterError Filter :=
  (Filter.parse text).mapError .read

def Tree.read (t : Tree) : Except FilterError Filter :=
  t.toFilter.mapError .shape

/-- The filter as it is read back once it is stored. -/
def Filter.canonical (f : Filter) : Except FilterError Filter :=
  f.toTree.read

/-- The canonical text of a filter. -/
def normalize (text : String) : Except FilterError String := do
  let f ← Filter.read text
  let g ← f.canonical
  return g.text

end TagQuery
