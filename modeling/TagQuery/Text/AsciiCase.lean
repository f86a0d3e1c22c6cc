/-! Upper case of ASCII letters.

Keywords and operator names are recognised in any mix of ASCII case; no other letter is ever taken for
one of theirs, so `upper` leaves every other character as it is. -/

namespace TagQuery.Text

def upper (word : List Char) : List Char :=
  word.map Char.toUpper

@[simp] theorem length_upper (word : List Char) : (upper word).length = word.length :=
  List.length_map _

/-- The two words are the same but for the case of ASCII letters. -/
def sameWord (v w : List Char) : Bool :=
  upper v == upper w

theorem sameWord_iff {v w : List Char} : sameWord v w = true ↔ upper v = upper w := by
  simp [sameWord]

end TagQuery.Text
