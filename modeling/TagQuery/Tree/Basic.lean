import TagQuery.Json.Basic
import TagQuery.Tree.Vocabulary

/-! Filter trees, the form in which filters are stored.

A node is a label with elements below it.  The label holds whatever fields a sender has set: those of a
group (`kind`, `connective`), those of a leaf (`name`, `entity`, `operator`, a key and a value), or any
mixture; which labels make sense is for the reader of a tree to say. -/

namespace TagQuery

/-- The fields of a node, its elements left out. -/
structure Label where
  kind : Option (Open NodeKind) := none
  connective : Option (Open Connective) := none
  name : Option String := none
  entity : Option (Open Side) := none
  operator : Option (Open LeafOperator) := none
  key : Option String := none
  stringValue : Option String := none
  numberValue : Option Number := none
  booleanValue : Option Bool := none
  /-- A copy of the value without its type. -/
  value : Option Json := none
  deriving DecidableEq, Repr

/-- A node with the nodes below it. -/
structure Tree where
  label : Label
  elements : List Tree
  deriving Repr

namespace Tree

/-- A node without any field. -/
def empty : Tree := ⟨{}, []⟩

/-! ## Nodes that a sender builds -/

def group (connective : Open Connective) (elements : List Tree) : Tree :=
  ⟨{ kind := some (.known .expression), connective := some connective }, elements⟩

/-- A leaf without key and value. -/
def leaf (entity : Open Side) (name : String) (operator : Open LeafOperator) : Tree :=
  ⟨{ kind := some (.known .tagFilter), name := some name, entity := some entity,
     operator := some operator }, []⟩

def withKey (t : Tree) (key : Option String) : Tree :=
  ⟨{ t.label with key := key }, t.elements⟩

def withString (t : Tree) (text : String) : Tree :=
  ⟨{ t.label with stringValue := some text, value := some (.string text) }, t.elements⟩

def withNumber (t : Tree) (n : Number) : Tree :=
  ⟨{ t.label with numberValue := some n, value := some (.number n) }, t.elements⟩

def withBoolean (t : Tree) (b : Bool) : Tree :=
  ⟨{ t.label with booleanValue := some b, value := some (.boolean b) }, t.elements⟩

/-- The leaf with a key and a string to compare with: the string value repeats the key, and the copy
without a type is the plain text. -/
def withTag (t : Tree) (key text : String) : Tree :=
  ⟨{ t.label with key := some key, stringValue := some (key ++ "=" ++ text),
                  value := some (.string text) }, t.elements⟩

end Tree

/-! ## Reading a label -/

namespace Label

def isExpression (l : Label) : Bool :=
  l.kind == some (.known .expression)

def isTagFilter (l : Label) : Bool :=
  l.kind == some (.known .tagFilter)

/-- The label of a group joined with `c`. -/
def isGroupOf (l : Label) (c : Connective) : Bool :=
  l.isExpression && l.connective == some (.known c)

def typedValueCount (l : Label) : Nat :=
  l.stringValue.isSome.toNat + l.numberValue.isSome.toNat + l.booleanValue.isSome.toNat

/-- What stands behind `key` and a `=` at the start of `text`, or all of it where they do not stand
there. -/
def stripKey (key text : List Char) : List Char :=
  if (key ++ ['=']).isPrefixOf text then text.drop (key.length + 1) else text

/-- The string value without the key that it may repeat. -/
def tagValue (l : Label) : Option String :=
  match l.stringValue, l.key with
  | some text, some key => some (String.ofList (stripKey key.toList text.toList))
  | text, _ => text

end Label

namespace Tree

mutual

def nodeCount : Tree → Nat
  | ⟨_, elements⟩ => 1 + nodeCountAll elements

def nodeCountAll : List Tree → Nat
  | [] => 0
  | t :: ts => t.nodeCount + nodeCountAll ts

end

/-! ## Equality -/

mutual

def same : Tree → Tree → Bool
  | ⟨l, xs⟩, ⟨m, ys⟩ => l == m && sameAll xs ys

def sameAll : List Tree → List Tree → Bool
  | [], [] => true
  | x :: xs, y :: ys => same x y && sameAll xs ys
  | _, _ => false

end

mutual

theorem same_iff : ∀ {x y : Tree}, same x y = true ↔ x = y
  | ⟨l, xs⟩, ⟨m, ys⟩ => by simp [same, sameAll_iff (s := xs)]

theorem sameAll_iff : ∀ {s t : List Tree}, sameAll s t = true ↔ s = t
  | [], ys => by cases ys <;> simp [sameAll]
  | x :: xs, ys => by cases ys <;> simp [sameAll, same_iff (x := x), sameAll_iff (s := xs)]

end

instance : DecidableEq Tree := fun _ _ => decidable_of_iff _ same_iff

end Tree

/-- The two fields are both absent, or hold equal values. -/
def agreesOption {α : Type} (agrees : α → α → Bool) : Option α → Option α → Bool
  | none, none => true
  | some x, some y => agrees x y
  | _, _ => false

/-- The labels are equal, the zeros of both signs being one number. -/
def Label.agrees (l m : Label) : Bool :=
  { l with numberValue := none, value := none } == { m with numberValue := none, value := none }
    && agreesOption Number.agrees l.numberValue m.numberValue
    && agreesOption Json.agrees l.value m.value

namespace Tree

mutual

/-- The trees are equal, the zeros of both signs being one number. -/
def agrees : Tree → Tree → Bool
  | ⟨l, xs⟩, ⟨m, ys⟩ => l.agrees m && agreesAll xs ys

def agreesAll : List Tree → List Tree → Bool
  | [], [] => true
  | x :: xs, y :: ys => agrees x y && agreesAll xs ys
  | _, _ => false

end

end Tree

end TagQuery
