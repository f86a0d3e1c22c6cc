import TagQuery.Vocabulary

/-! The side of a call that a tag is taken from. -/

namespace TagQuery

/-- The side of a call that a tag is taken from. -/
inductive Origin where
  | source
  | destination
  | notApplicable
  deriving DecidableEq, Repr

namespace Origin

def all : List Origin :=
  [.source, .destination, .notApplicable]

/-- The word after the `@` of a filter. -/
def key : Origin → String
  | .source => "src"
  | .destination => "dest"
  | .notApplicable => "na"

/-- The word that stands for the side in a tree. -/
def treeName : Origin → String
  | .source => "SOURCE"
  | .destination => "DESTINATION"
  | .notApplicable => "NOT_APPLICABLE"

/-- The side with this key; case matters. -/
def ofKey? (key : String) : Option Origin :=
  all.find? fun o => o.key == key

theorem ofKey?_key (o : Origin) : ofKey? o.key = some o := by
  cases o <;> decide

end Origin

instance : Vocabulary Origin where
  all := Origin.all
  spelling := Origin.treeName
  mem_all o := by cases o <;> decide
  spelling_inj := by decide

end TagQuery
