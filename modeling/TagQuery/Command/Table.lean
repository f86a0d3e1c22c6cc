import TagQuery.Command.Style
import TagQuery.Filter.Printer
import TagQuery.Text.Blank

/-! The conditions of a filter as a table.

A row has five cells, each but the last filled up with blanks to the width of its column.  Names and keys
that are wider than their columns are cut; the end of a row has no blanks. -/

namespace TagQuery.Table

/-- The widths of the columns but the last: entity, key, origin and operator. -/
def entityWidth : Nat := 30

def keyWidth : Nat := 16

def originWidth : Nat := 6

def operatorWidth : Nat := 22

/-- A text of at most `width` characters; three points stand for what is cut off. -/
def cut (width : Nat) (text : String) : String :=
  if width < text.toList.length then String.ofList (text.toList.take (width - 3)) ++ "..." else text

/-- A text with blanks behind it up to a width. -/
def fill (width : Nat) (text : String) : String :=
  String.ofList (text.toList ++ List.replicate (width - text.toList.length) ' ')

def row (entity key origin operator value : String) : String :=
  fill entityWidth entity ++ " " ++ fill keyWidth key ++ " " ++ fill originWidth origin ++ " "
    ++ fill operatorWidth operator ++ " " ++ value

/-- The line above the rows. -/
def header (p : Palette) : String :=
  p.dimmed (row "Entity" "Tag Key" "Origin" "Operator" "Value")

/-- The cell of an origin; a dash stands where none is written. -/
def originCell (p : Palette) : Option Origin → String
  | some o => o.key
  | none => p.dimmed "-"

def ofCondition (p : Palette) (c : Condition) : String :=
  let e := c.entity
  let line := row (cut entityWidth e.name) (cut keyWidth (e.key.getD "")) (originCell p e.origin)
    c.operator.name ((c.value?.map Value.text).getD "")
  String.ofList (Text.trimEnd line.toList)

/-- The table of a filter's conditions, in their order. -/
def ofFilter (p : Palette) (f : Filter) : String :=
  String.join ((header p :: f.conditions.map (ofCondition p)).map (· ++ "\n"))

/-! ## Lemmas -/

/-- What is cut fits its column. -/
theorem length_cut_le {width : Nat} (h : 3 ≤ width) (text : String) :
    (cut width text).toList.length ≤ width := by
  unfold cut
  split
  · have points : "...".toList.length = 3 := by decide
    rw [String.toList_append, List.length_append, String.toList_ofList, points, List.length_take]
    omega
  · omega

/-- A text that fits its column fills it. -/
theorem length_fill {width : Nat} {text : String} (h : text.toList.length ≤ width) :
    (fill width text).toList.length = width := by
  simp [fill]
  omega

end TagQuery.Table
