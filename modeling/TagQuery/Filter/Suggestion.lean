import TagQuery.Filter.Operator
import TagQuery.Text.AsciiCase
import TagQuery.Text.EditDistance

/-! The operator that a misspelled word may have meant. -/

namespace TagQuery

/-- The greatest edit distance at which an operator is suggested. -/
def maxSuggestionDistance : Nat := 3

/-- The first of the items with the least weight. -/
def firstMinimum {α : Type} (weight : α → Nat) : List α → Option α
  | [] => none
  | a :: as =>
    match firstMinimum weight as with
    | none => some a
    | some b => if weight b < weight a then some b else some a

/-- The operator nearest to the word, whatever its case; the first in the order of `Operator.all` among
equals, and none if it is too far off. -/
def suggestOperator (word : String) : Option Operator :=
  let distance := fun op : Operator =>
    Text.editDistance (Text.upper word.toList) op.name.toList
  (firstMinimum distance Operator.all).filter fun op =>
    0 < distance op && distance op ≤ maxSuggestionDistance

/-! ## Lemmas -/

theorem firstMinimum_eq_none_iff {α : Type} {weight : α → Nat} {as : List α} :
    firstMinimum weight as = none ↔ as = [] := by
  cases as with
  | nil => simp [firstMinimum]
  | cons a as =>
    simp only [firstMinimum, reduceCtorEq, iff_false]
    split
    · simp
    · split <;> simp

/-- No item weighs less than the one found. -/
theorem firstMinimum_le {α : Type} {weight : α → Nat} {as : List α} {a : α}
    (h : firstMinimum weight as = some a) : a ∈ as ∧ ∀ b ∈ as, weight a ≤ weight b := by
  induction as generalizing a with
  | nil => simp [firstMinimum] at h
  | cons c cs ih =>
    simp only [firstMinimum] at h
    split at h
    · rename_i hn
      simp only [Option.some.injEq] at h
      rw [firstMinimum_eq_none_iff] at hn
      simp [h, hn]
    · rename_i b hb
      obtain ⟨hm, hle⟩ := ih hb
      split at h
      · rename_i hlt
        simp only [Option.some.injEq] at h
        subst h
        refine ⟨List.mem_cons_of_mem _ hm, fun d hd => ?_⟩
        rcases List.mem_cons.1 hd with rfl | hd
        · omega
        · exact hle d hd
      · rename_i hge
        simp only [Option.some.injEq] at h
        subst h
        refine ⟨List.mem_cons_self, fun d hd => ?_⟩
        rcases List.mem_cons.1 hd with rfl | hd
        · omega
        · have := hle d hd
          omega

end TagQuery
