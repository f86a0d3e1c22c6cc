/-! Edit distance: how many single-character changes turn one word into another.

`editDistance a b` counts the fewest insertions, deletions and substitutions.  It is computed a row at a
time: `distanceRow a b` holds the distance from `a` to `b` and to every shorter suffix of `b`. -/

namespace TagQuery.Text

/-! ## Algorithm -/

/-- The row of `a :: as`, from the row of `as` against the same word. -/
def distanceRowStep (a : Char) : List Char → List Nat → List Nat
  | [], row => [row.headD 0 + 1]
  | b :: bs, row =>
    let shorter := distanceRowStep a bs row.tail
    let replaced := row.tail.headD 0 + if a = b then 0 else 1
    min replaced (min (row.headD 0 + 1) (shorter.headD 0 + 1)) :: shorter

/-- The distances from the empty word: every character of a suffix is an insertion. -/
def emptyRow : List Char → List Nat
  | [] => [0]
  | _ :: bs => (bs.length + 1) :: emptyRow bs

/-- The distances from a word to `bs` and to each shorter suffix of it, longest first. -/
def distanceRow : List Char → List Char → List Nat
  | [], bs => emptyRow bs
  | a :: as, bs => distanceRowStep a bs (distanceRow as bs)

/-- The fewest single-character insertions, deletions and substitutions that turn one word into the
other. -/
def editDistance (as bs : List Char) : Nat :=
  (distanceRow as bs).headD 0

/-! ## Lemmas -/

@[simp] theorem editDistance_nil (bs : List Char) : editDistance [] bs = bs.length := by
  cases bs <;> rfl

end TagQuery.Text
