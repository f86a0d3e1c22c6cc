import Mathlib.Tactic.IntervalCases
import Mathlib.Tactic.Linarith
import Mathlib.Tactic.Ring
import TagQuery.Number.Literal

/-!
# The digits of a natural number

What a row of digits is worth, and how long the row of a number is:

    valueOfDigits (digitsOf n) = n                                  (valueOfDigits_digitsOf)
    valueOfDigits (ds ++ zeros k) = valueOfDigits ds * 10 ^ k       (valueOfDigits_append_zeros)
    0 < k → ((digitsOf n).length ≤ k ↔ n < 10 ^ k)                  (length_digitsOf_le_iff)
-/

namespace TagQuery.Number

/-! ## Values -/

@[simp] theorem valueOfDigits_digitsOf (n : Nat) : valueOfDigits (digitsOf n) = n :=
  Nat.ofDigitChars_ten_toDigits

theorem valueOfDigits_append_zeros (ds : List Char) (k : Nat) :
    valueOfDigits (ds ++ List.replicate k '0') = valueOfDigits ds * 10 ^ k := by
  have h := Nat.ofDigitChars_append (b := 10) (l := ds) (m := List.replicate k '0') 0
  rw [Nat.ofDigitChars_replicate_zero, Nat.mul_comm] at h
  exact h

/-- Zeros in front change nothing. -/
theorem valueOfDigits_zeros_append (k : Nat) (ds : List Char) :
    valueOfDigits (List.replicate k '0' ++ ds) = valueOfDigits ds := by
  have h := Nat.ofDigitChars_append (b := 10) (l := List.replicate k '0') (m := ds) 0
  rw [Nat.ofDigitChars_replicate_zero, Nat.mul_zero] at h
  exact h

/-! ## Rows of digits -/

theorem digitsOf_ne_nil (n : Nat) : digitsOf n ≠ [] :=
  Nat.toDigits_ne_nil

theorem isDigit_digitsOf (n : Nat) : ∀ c ∈ digitsOf n, isDigit c = true :=
  fun _ hc => Nat.isDigit_of_mem_toDigits (by omega) (by omega) hc

/-- The first digit of a number is no zero, zero apart. -/
theorem head_digitsOf {n : Nat} (h : 0 < n) : (digitsOf n).head? ≠ some '0' := by
  induction n using Nat.strong_induction_on with
  | _ n ih =>
    by_cases h10 : n < 10
    · rw [digitsOf, Nat.toDigits_of_lt_base h10]
      interval_cases n <;> decide
    · rw [digitsOf, Nat.toDigits_of_base_le (by omega) (by omega), List.head?_append]
      have hih := ih (n / 10) (by omega) (by omega)
      cases hd : (Nat.toDigits 10 (n / 10)).head? with
      | none => exact absurd (List.head?_eq_none_iff.1 hd) Nat.toDigits_ne_nil
      | some c =>
        rw [digitsOf, hd] at hih
        exact hih

/-! ## Lengths -/

theorem length_digitsOf_pos (n : Nat) : 0 < (digitsOf n).length :=
  Nat.length_toDigits_pos

theorem length_digitsOf_le_iff {n k : Nat} (h : 0 < k) : (digitsOf n).length ≤ k ↔ n < 10 ^ k :=
  Nat.length_toDigits_le_iff (by omega) h

theorem lt_pow_length (n : Nat) : n < 10 ^ (digitsOf n).length :=
  (length_digitsOf_le_iff (length_digitsOf_pos n)).1 le_rfl

theorem pow_length_le {n : Nat} (h : 0 < n) : 10 ^ ((digitsOf n).length - 1) ≤ n := by
  by_cases h1 : (digitsOf n).length = 1
  · rw [h1]
    exact h
  · have hpos := length_digitsOf_pos n
    by_contra hlt
    have hle : (digitsOf n).length ≤ (digitsOf n).length - 1 :=
      (length_digitsOf_le_iff (by omega)).2 (Nat.not_le.1 hlt)
    omega

/-- The row whose length fits is the only one. -/
theorem length_digitsOf_eq {n k : Nat} (lower : 10 ^ k ≤ n) (upper : n < 10 ^ (k + 1)) :
    (digitsOf n).length = k + 1 := by
  have hle : (digitsOf n).length ≤ k + 1 := (length_digitsOf_le_iff (Nat.succ_pos k)).2 upper
  have hlt : 10 ^ k < 10 ^ (digitsOf n).length := Nat.lt_of_le_of_lt lower (lt_pow_length n)
  have := (Nat.pow_lt_pow_iff_right (by omega)).1 hlt
  omega

/-- A power of ten adds its zeros. -/
theorem length_digitsOf_mul_pow {m : Nat} (h : 0 < m) (k : Nat) :
    (digitsOf (m * 10 ^ k)).length = (digitsOf m).length + k := by
  have hpos := length_digitsOf_pos m
  have hten : 0 < 10 ^ k := Nat.pow_pos (by omega)
  have hlow : 10 ^ ((digitsOf m).length - 1 + k) ≤ m * 10 ^ k := by
    rw [Nat.pow_add]
    exact Nat.mul_le_mul_right _ (pow_length_le h)
  have hup : m * 10 ^ k < 10 ^ ((digitsOf m).length - 1 + k + 1) := by
    rw [show (digitsOf m).length - 1 + k + 1 = (digitsOf m).length + k by omega, Nat.pow_add]
    exact Nat.mul_lt_mul_of_pos_right (lt_pow_length m) hten
  have := length_digitsOf_eq hlow hup
  omega

end TagQuery.Number
