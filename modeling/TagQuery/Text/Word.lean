import TagQuery.Text.Letter
import TagQuery.Text.Numeral

/-! Words: unquoted names, keys, keywords and operators.

A word starts with a letter or `_` and goes on with letters, numerals and `_ . - /`. -/

namespace TagQuery.Text

/-- A character that a word can start with. -/
def startsWord (c : Char) : Bool :=
  isLetter c || c == '_'

/-- A character that a word can go on with. -/
def continuesWord (c : Char) : Bool :=
  isLetter c || isNumeral c || c == '_' || c == '.' || c == '-' || c == '/'

end TagQuery.Text
