/-! Sets of characters given by ranges of code points.

Every character class of the library that reaches beyond ASCII is a list of closed ranges, searched
from the left. -/

namespace TagQuery.Text

/-- The code point of `c` lies in one of the closed ranges. -/
def covered (ranges : List (Nat × Nat)) (c : Char) : Bool :=
  ranges.any fun r => r.1 ≤ c.toNat && c.toNat ≤ r.2

theorem covered_iff {ranges : List (Nat × Nat)} {c : Char} :
    covered ranges c = true ↔ ∃ r ∈ ranges, r.1 ≤ c.toNat ∧ c.toNat ≤ r.2 := by
  simp [covered]

end TagQuery.Text
