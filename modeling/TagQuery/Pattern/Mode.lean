import TagQuery.Text.Blank

/-! How a pattern is read.

A `Mode` is the state of the flags at some place of a pattern.  Three of them decide what may be written;
the others only change what is matched. -/

namespace TagQuery.Pattern

structure Mode where
  /-- The pattern is about bytes, not about characters; the flag `u` turns it off. -/
  ofBytes : Bool
  /-- Case does not matter; the flag is `i`. -/
  ignoresCase : Bool
  /-- Blanks and comments mean nothing; the flag is `x`. -/
  ignoresBlanks : Bool
  deriving DecidableEq, Repr

namespace Mode

def initial : Mode := ⟨false, false, false⟩

/-- The mode with a flag set or cleared, if there is such a flag. -/
def set? (m : Mode) (flag : Char) (on : Bool) : Option Mode :=
  match flag with
  | 'u' => some { m with ofBytes := !on }
  | 'i' => some { m with ignoresCase := on }
  | 'x' => some { m with ignoresBlanks := on }
  | 'm' | 's' | 'R' | 'U' => some m
  | _ => none

/-- The text behind blanks and comments.  A comment goes from `#` to the end of its line. -/
def skipRemarks (inComment : Bool) : List Char → List Char
  | [] => []
  | c :: cs =>
    if inComment then skipRemarks (c != '\n') cs
    else if c = '#' then skipRemarks true cs
    else if Text.isBlank c then skipRemarks false cs
    else c :: cs

def skip (m : Mode) (cs : List Char) : List Char :=
  if m.ignoresBlanks then skipRemarks false cs else cs

/-- The character that a `-` looks ahead to.  Of a comment it passes over the mark only, and it does not
look beyond blanks at the end. -/
def ahead (m : Mode) (cs : List Char) : Option Char :=
  if m.ignoresBlanks then
    let rest := Text.trimStart cs
    let rest := if rest.head? = some '#' then Text.trimStart rest.tail else rest
    rest.head? <|> cs.head?
  else cs.head?

/-! ## Lemmas -/

theorem length_skipRemarks_le (inComment : Bool) (cs : List Char) :
    (skipRemarks inComment cs).length ≤ cs.length := by
  induction cs generalizing inComment with
  | nil => simp [skipRemarks]
  | cons c cs ih =>
    rw [skipRemarks]
    split
    · exact Nat.le_succ_of_le (ih _)
    · split
      · exact Nat.le_succ_of_le (ih _)
      · split
        · exact Nat.le_succ_of_le (ih _)
        · exact Nat.le_refl _

/-- Nothing is put in front of a text by skipping. -/
theorem length_skip_le (m : Mode) (cs : List Char) : (m.skip cs).length ≤ cs.length := by
  unfold skip
  split
  · exact length_skipRemarks_le false cs
  · exact Nat.le_refl _

end Mode

end TagQuery.Pattern
