import Mathlib.Order.Bounds.Basic
import TagQuery.Text.EditDistance

/-!
# Edit distance is the fewest changes

A change of a word puts a character in, takes one out or writes another one in its place (`Change`), and
`Changes n v w` says that `n` of them lead from `v` to `w`.  A row of the algorithm holds the distances
to a word and to its suffixes, which makes the distance of two words that of their shorter ones:

    editDistance (a :: as) (b :: bs) = min (editDistance as bs + if a = b then 0 else 1)
      (min (editDistance as (b :: bs) + 1) (editDistance (a :: as) bs + 1))       (editDistance_cons_cons)

So many changes are enough, and a single change takes a word no more than one nearer to any other, so
that the distance is the least number of changes:

    editDistance v w = n ↔ IsLeast {n | Changes n v w} n                             (editDistance_eq_iff)
-/

namespace TagQuery.Text

/-! ## Changes -/

/-- A single character is put in, taken out or replaced. -/
inductive Change : List Char → List Char → Prop where
  | insert (front : List Char) (c : Char) (back : List Char) :
      Change (front ++ back) (front ++ c :: back)
  | delete (front : List Char) (c : Char) (back : List Char) :
      Change (front ++ c :: back) (front ++ back)
  | replace (front : List Char) (c d : Char) (back : List Char) :
      Change (front ++ c :: back) (front ++ d :: back)

/-- So many changes, one after the other, lead from the first word to the second. -/
inductive Changes : Nat → List Char → List Char → Prop where
  | none {v : List Char} : Changes 0 v v
  | more {n : Nat} {u v w : List Char} (first : Change u v) (rest : Changes n v w) :
      Changes (n + 1) u w

section

variable {n : Nat} {v w : List Char}

theorem Change.cons (c : Char) (h : Change v w) : Change (c :: v) (c :: w) := by
  cases h with
  | insert front d back => exact .insert (c :: front) d back
  | delete front d back => exact .delete (c :: front) d back
  | replace front d e back => exact .replace (c :: front) d e back

/-- Behind a common first character the changes are the same. -/
theorem Changes.cons (c : Char) (h : Changes n v w) : Changes n (c :: v) (c :: w) := by
  induction h with
  | none => exact .none
  | more first _ ih => exact .more (first.cons c) ih

/-- No change leaves a word as it is. -/
theorem changes_zero_iff : Changes 0 v w ↔ v = w := by
  constructor
  · intro h
    cases h
    rfl
  · rintro rfl
    exact .none

end

/-! ## The equations of the distance -/

/-- Behind its first entry, the row of a word is the row of its suffix. -/
theorem tail_distanceRow (as : List Char) (b : Char) (bs : List Char) :
    (distanceRow as (b :: bs)).tail = distanceRow as bs := by
  induction as with
  | nil => rfl
  | cons a as ih =>
    show distanceRowStep a bs (distanceRow as (b :: bs)).tail = distanceRowStep a bs (distanceRow as bs)
    rw [ih]

theorem editDistance_cons_nil (a : Char) (as : List Char) :
    editDistance (a :: as) [] = editDistance as [] + 1 := rfl

theorem editDistance_cons_cons (a : Char) (as : List Char) (b : Char) (bs : List Char) :
    editDistance (a :: as) (b :: bs)
      = min (editDistance as bs + if a = b then 0 else 1)
          (min (editDistance as (b :: bs) + 1) (editDistance (a :: as) bs + 1)) := by
  have htail := tail_distanceRow as b bs
  show min ((distanceRow as (b :: bs)).tail.headD 0 + if a = b then 0 else 1)
      (min ((distanceRow as (b :: bs)).headD 0 + 1)
        ((distanceRowStep a bs (distanceRow as (b :: bs)).tail).headD 0 + 1)) = _
  rw [htail]
  rfl

/-- The last of the changes that the distance counts makes a first character, takes one away or keeps it. -/
theorem editDistance_cases (a : Char) (as : List Char) (b : Char) (bs : List Char) :
    (a = b ∧ editDistance (a :: as) (b :: bs) = editDistance as bs)
      ∨ editDistance (a :: as) (b :: bs) = editDistance as bs + 1
      ∨ editDistance (a :: as) (b :: bs) = editDistance as (b :: bs) + 1
      ∨ editDistance (a :: as) (b :: bs) = editDistance (a :: as) bs + 1 := by
  have heq := editDistance_cons_cons a as b bs
  by_cases hab : a = b
  · rw [if_pos hab] at heq
    rw [and_iff_right hab]
    omega
  · rw [if_neg hab] at heq
    omega

section

variable (a b : Char) (as bs v w : List Char)

/-- Each of the ways to go on bounds the distance. -/
theorem editDistance_cons_cons_le :
    editDistance (a :: as) (b :: bs) ≤ editDistance as bs + 1
      ∧ editDistance (a :: as) (b :: bs) ≤ editDistance as (b :: bs) + 1
      ∧ editDistance (a :: as) (b :: bs) ≤ editDistance (a :: as) bs + 1 := by
  have heq := editDistance_cons_cons a as b bs
  split at heq <;> omega

theorem editDistance_cons_self_le : editDistance (a :: as) (a :: bs) ≤ editDistance as bs := by
  have heq := editDistance_cons_cons a as a bs
  rw [if_pos rfl] at heq
  omega

theorem editDistance_cons_left_le : editDistance (a :: v) w ≤ editDistance v w + 1 := by
  cases w with
  | nil => exact Nat.le_of_eq (editDistance_cons_nil a v)
  | cons b bs => exact (editDistance_cons_cons_le a b v bs).2.1

theorem editDistance_cons_right_le : editDistance v (b :: w) ≤ editDistance v w + 1 := by
  cases v with
  | nil => simp
  | cons a as => exact (editDistance_cons_cons_le a b as w).2.2

end

/-! ## As many changes as the distance are enough -/

theorem changes_insert (w : List Char) : Changes w.length [] w := by
  induction w with
  | nil => exact .none
  | cons b bs ih => exact .more (.insert [] b []) (ih.cons b)

theorem changes_editDistance (v w : List Char) : Changes (editDistance v w) v w := by
  induction v generalizing w with
  | nil =>
    rw [editDistance_nil]
    exact changes_insert w
  | cons a as ih =>
    induction w with
    | nil =>
      rw [editDistance_cons_nil]
      exact .more (.delete [] a as) (ih [])
    | cons b bs ihw =>
      rcases editDistance_cases a as b bs with ⟨rfl, heq⟩ | heq | heq | heq <;> rw [heq]
      · exact (ih bs).cons a
      · exact .more (.replace [] a b as) ((ih bs).cons b)
      · exact .more (.delete [] a as) (ih (b :: bs))
      · exact .more (.insert [] b (a :: as)) (ihw.cons b)

/-! ## Fewer changes are not -/

theorem editDistance_self (v : List Char) : editDistance v v = 0 := by
  induction v with
  | nil => rfl
  | cons a as ih =>
    have hle := editDistance_cons_self_le a as as
    omega

/-- A word without its first character is at most one change farther off. -/
theorem editDistance_le_cons_left (a : Char) (v w : List Char) :
    editDistance v w ≤ editDistance (a :: v) w + 1 := by
  induction w with
  | nil =>
    rw [editDistance_cons_nil]
    omega
  | cons b bs ih =>
    have hright := editDistance_cons_right_le b v bs
    rcases editDistance_cases a v b bs with ⟨-, heq⟩ | heq | heq | heq <;> omega

theorem editDistance_replace_le (c d : Char) (v w : List Char) :
    editDistance (c :: v) w ≤ editDistance (d :: v) w + 1 := by
  induction w with
  | nil =>
    rw [editDistance_cons_nil, editDistance_cons_nil]
    omega
  | cons b bs ih =>
    obtain ⟨hboth, hleft, hright⟩ := editDistance_cons_cons_le c b v bs
    rcases editDistance_cases d v b bs with ⟨-, heq⟩ | heq | heq | heq <;> omega

/-- A change farther behind counts no more than at the front. -/
theorem editDistance_front_le {u v : List Char} (c : Char)
    (h : ∀ w, editDistance u w ≤ editDistance v w + 1) (w : List Char) :
    editDistance (c :: u) w ≤ editDistance (c :: v) w + 1 := by
  induction w with
  | nil =>
    have hnil := h []
    rw [editDistance_cons_nil, editDistance_cons_nil]
    omega
  | cons b bs ih =>
    have hboth := h bs
    have hleft := h (b :: bs)
    obtain ⟨hle, hleft', hright⟩ := editDistance_cons_cons_le c b u bs
    rcases editDistance_cases c v b bs with ⟨rfl, heq⟩ | heq | heq | heq
    · have hself := editDistance_cons_self_le c u bs
      omega
    all_goals omega

/-- A single change takes a word at most one nearer to any other. -/
theorem editDistance_le_of_change {u v : List Char} (h : Change u v) (w : List Char) :
    editDistance u w ≤ editDistance v w + 1 := by
  have front : ∀ {u v : List Char}, (∀ w, editDistance u w ≤ editDistance v w + 1) →
      ∀ (cs w : List Char), editDistance (cs ++ u) w ≤ editDistance (cs ++ v) w + 1 := by
    intro u v h cs
    induction cs with
    | nil => exact h
    | cons c cs ih => exact editDistance_front_le c ih
  cases h with
  | insert cs c back => exact front (editDistance_le_cons_left c back) cs w
  | delete cs c back => exact front (editDistance_cons_left_le c back) cs w
  | replace cs c d back => exact front (editDistance_replace_le c d back) cs w

theorem editDistance_le {n : Nat} {v w : List Char} (h : Changes n v w) : editDistance v w ≤ n := by
  induction h with
  | @none v => exact Nat.le_of_eq (editDistance_self v)
  | @more n u v w first rest ih =>
    have hle := editDistance_le_of_change first w
    omega

/-- **The distance is the least number of changes** that lead from one word to the other. -/
theorem editDistance_eq_iff {n : Nat} {v w : List Char} :
    editDistance v w = n ↔ IsLeast {n | Changes n v w} n := by
  have hleast : IsLeast {n | Changes n v w} (editDistance v w) :=
    ⟨changes_editDistance v w, fun _ h => editDistance_le h⟩
  constructor
  · rintro rfl
    exact hleast
  · intro h
    exact hleast.unique h

end TagQuery.Text
