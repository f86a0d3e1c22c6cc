import TagQuery.Proofs.Json.Scalars
import TagQuery.Proofs.Number.Nearest

/-!
# Short decimals are read exactly

A significand below `2 ^ 53` is a binary number, and so is a power of ten up to `10 ^ 22`.  Where a
decimal is made of such two (`Short`), their product or quotient rounds the decimal itself, as the
reader of filters does:

    Short l.decimal → binaryOf? l = Binary64.ofDecimal? l.negative l.decimal    (binaryOf?_short)

So binary numbers with such decimals are read back from their texts (`readsBack_short`), and so are the
numbers of a value whose binary ones are all like that (`numbersReadBack_short`).
-/

namespace TagQuery.Json

open Number (Binary64 Decimal digitsOf length_digitsOf_le_iff)
open Number.Binary64 hiding ofDecimal?

/-- The digits and the power of ten are both binary numbers. -/
structure Short (d : Decimal) : Prop where
  digits : d.digits < 2 ^ 53
  exponent : d.exponent.natAbs ≤ 22

/-! ## Digits that fit -/

/-- The value of a row of digits behind a significand. -/
def valueFrom (n : Nat) (ds : List Char) : Nat :=
  ds.foldl (fun n d => 10 * n + (d.toNat - '0'.toNat)) n

theorem le_valueFrom (n : Nat) (ds : List Char) : n ≤ valueFrom n ds := by
  induction ds generalizing n with
  | nil => exact Nat.le_refl n
  | cons d ds ih =>
    have hle : 10 * n + (d.toNat - '0'.toNat) ≤ valueFrom n (d :: ds) := ih _
    omega

/-- Digits whose value fits are all taken. -/
theorem takeFitting_fits {n : Nat} {ds : List Char} (h : valueFrom n ds ≤ 18446744073709551615) :
    takeFitting n ds = (valueFrom n ds, []) := by
  induction ds generalizing n with
  | nil => rfl
  | cons d ds ih =>
    have hlonger : 10 * n + (d.toNat - '0'.toNat) ≤ 18446744073709551615 :=
      Nat.le_trans (le_valueFrom _ ds) h
    unfold takeFitting
    rw [if_pos hlonger]
    exact ih h

theorem fittingDecimal_fits {l : NumberLiteral} (h : l.decimal.digits ≤ 18446744073709551615) :
    fittingDecimal l = l.decimal := by
  have hdigits : l.decimal.digits = valueFrom (valueFrom 0 l.whole) (l.fraction.getD []) :=
    List.foldl_append
  have hfraction := takeFitting_fits (Nat.le_trans (Nat.le_of_eq hdigits.symm) h)
  have hwhole := takeFitting_fits
    (Nat.le_trans (le_valueFrom _ _) (Nat.le_trans (Nat.le_of_eq hdigits.symm) h))
  unfold fittingDecimal
  rw [hwhole]
  simp only [hfraction, ← hdigits, NumberLiteral.decimal, List.length_nil, Nat.sub_zero]
  congr 1
  omega

/-! ## Numbers that are exact -/

/-- A short significand is a binary number at every exponent that the format has. -/
theorem exists_units {n k : Nat} (hn : n < 2 ^ 53) (hk : k ≤ 2045) :
    ∃ x : Binary64, x.negative = false ∧ x.units = n * Nat.pow 2 k := by
  by_cases hzero : n = 0
  · exact ⟨zero false, rfl, by simp [units, zero, hzero]⟩
  · have hlog : n.log2 ≤ 52 := by
      have := (Nat.log2_lt hzero).2 hn
      omega
    -- the significand is shifted to the left as far as the format and the exponent allow
    have hsplit : ∃ s, s ≤ k ∧ s ≤ 52 - n.log2 ∧ (s = k ∨ s = 52 - n.log2) := by
      by_cases hs : k ≤ 52 - n.log2
      · exact ⟨k, by omega⟩
      · exact ⟨52 - n.log2, by omega⟩
    obtain ⟨s, hsk, hs, hmax⟩ := hsplit
    have hlow : 2 ^ n.log2 ≤ n := Nat.log2_self_le hzero
    have hhigh : n < 2 ^ (n.log2 + 1) := Nat.lt_log2_self
    have hbound : n * 2 ^ s < 2 ^ 53 :=
      calc n * 2 ^ s < 2 ^ (n.log2 + 1) * 2 ^ s :=
            Nat.mul_lt_mul_of_pos_right hhigh (Nat.pow_pos (by omega))
        _ = 2 ^ (n.log2 + 1 + s) := (Nat.pow_add ..).symm
        _ ≤ 2 ^ 53 := Nat.pow_le_pow_right (by omega) (by omega)
    have hnormal : k - s = 0 ∨ 2 ^ 52 ≤ n * 2 ^ s := by
      rcases hmax with rfl | hmax
      · exact .inl (Nat.sub_self s)
      · right
        calc 2 ^ 52 = 2 ^ n.log2 * 2 ^ s := by rw [← Nat.pow_add, show n.log2 + s = 52 by omega]
          _ ≤ n * 2 ^ s := Nat.mul_le_mul_right _ hlow
    refine ⟨⟨false, n * 2 ^ s, k - s, ⟨hbound, by omega⟩, hnormal⟩, rfl, ?_⟩
    show n * 2 ^ s * 2 ^ (k - s) = n * 2 ^ k
    rw [Nat.mul_assoc, ← Nat.pow_add, show s + (k - s) = k by omega]

theorem ofRatio?_units {x : Binary64} {n : Nat} (hsign : x.negative = false)
    (hunits : x.units = n * stepsOfOne) : ofRatio? false n 1 = some x := by
  rw [← hsign]
  apply ofRatio?_exact x Nat.one_pos
  rw [hunits]
  unfold stepsOfOne
  generalize Nat.pow 2 1074 = steps
  exact (Nat.mul_one _).symm

theorem exists_steps {n k : Nat} (hn : n < 2 ^ 53) (hk : k ≤ 971) :
    ∃ x : Binary64, x.negative = false ∧ x.units = n * (2 ^ k * stepsOfOne) := by
  have hm : k + 1074 ≤ 2045 := by omega
  unfold stepsOfOne
  generalize 1074 = m at hm ⊢
  have hpow : Nat.pow 2 (k + m) = 2 ^ k * Nat.pow 2 m := Nat.pow_add 2 k m
  rw [← hpow]
  exact exists_units hn hm

theorem ofRatio?_short {n : Nat} (h : n < 2 ^ 53) :
    ∃ x : Binary64, ofRatio? false n 1 = some x ∧ x.negative = false ∧ x.units = n * stepsOfOne := by
  obtain ⟨x, hsign, hunits⟩ := exists_steps (k := 0) h (by omega)
  rw [Nat.pow_zero, Nat.one_mul] at hunits
  exact ⟨x, ofRatio?_units hsign hunits, hsign, hunits⟩

theorem powerOfTen?_short {k : Nat} (h : k ≤ 22) :
    ∃ x : Binary64, powerOfTen? k = some x ∧ x.negative = false
      ∧ x.units = Nat.pow 10 k * stepsOfOne := by
  have hfive : 5 ^ k < 2 ^ 53 :=
    calc 5 ^ k ≤ 5 ^ 22 := Nat.pow_le_pow_right (by omega) h
      _ < 2 ^ 53 := by norm_num
  have hten : 5 ^ k * 2 ^ k = Nat.pow 10 k := (Nat.mul_pow 5 2 k).symm
  obtain ⟨x, hsign, hunits⟩ := exists_steps (k := k) hfive (by omega)
  rw [← Nat.mul_assoc, hten] at hunits
  exact ⟨x, ofRatio?_units hsign hunits, hsign, hunits⟩

/-- The unit of a product. -/
theorem stepsOfOne_square : Nat.pow 2 2148 = stepsOfOne * stepsOfOne := by
  have hdouble : 2148 = 1074 + 1074 := rfl
  unfold stepsOfOne
  generalize 1074 = m at hdouble ⊢
  rw [hdouble]
  exact Nat.pow_add 2 m m

/-! ## One rounding -/

/-- The product or quotient of a short significand and a short power is the decimal, rounded. -/
theorem scale?_short {x : Binary64} {n : Nat} {e : Int} (hsign : x.negative = false)
    (hx : x.units = n * stepsOfOne) (he : e.natAbs ≤ 22) :
    scale? x e = ofRatio? false (Decimal.ratio ⟨n, e⟩).1 (Decimal.ratio ⟨n, e⟩).2 := by
  obtain ⟨p, hp, hpsign, hunits⟩ := powerOfTen?_short he
  have hten : 0 < Nat.pow 10 e.natAbs := Nat.pow_pos (by omega)
  have hsteps := stepsOfOne_pos
  unfold scale?
  rw [if_pos (by omega), hp]
  show (if 0 ≤ e then x.times? p else x.over? p) = _
  by_cases hpos : 0 ≤ e
  · rw [if_pos hpos, times?, hsign, hpsign, hx, hunits, stepsOfOne_square]
    apply ofRatio?_congr _ (Nat.mul_pos hsteps hsteps) (Decimal.ratio_pos _)
    simp only [Decimal.ratio, show (-e).toNat = 0 by omega, show e.toNat = e.natAbs by omega]
    show n * stepsOfOne * (Nat.pow 10 e.natAbs * stepsOfOne) * 1
      = n * Nat.pow 10 e.natAbs * (stepsOfOne * stepsOfOne)
    ring
  · rw [if_neg hpos, over?, hsign, hpsign, hx, hunits]
    apply ofRatio?_congr _ (Nat.mul_pos hten hsteps) (Decimal.ratio_pos _)
    simp only [Decimal.ratio, show (-e).toNat = e.natAbs by omega, show e.toNat = 0 by omega]
    show n * stepsOfOne * Nat.pow 10 e.natAbs = n * 1 * (Nat.pow 10 e.natAbs * stepsOfOne)
    ring

theorem ofRatio?_sign (negative : Bool) (num den : Nat) :
    (ofRatio? false num den).map (fun x => { x with negative }) = ofRatio? negative num den := by
  have hparts : ∀ s e : Nat,
      (ofParts? false s e).map (fun x => { x with negative }) = ofParts? negative s e := by
    intro s e
    unfold ofParts?
    split <;> rfl
  unfold ofRatio?
  simp only
  split
  · exact hparts _ _
  · exact hparts _ _

/-- Decimals of moderate size are rounded as the quotients that they are. -/
theorem ofDecimal?_short (negative : Bool) {d : Decimal} (h : Short d) :
    Binary64.ofDecimal? negative d = ofRatio? negative d.ratio.1 d.ratio.2 := by
  have hlength : (digitsOf d.digits).length ≤ 16 := by
    rw [length_digitsOf_le_iff (by omega)]
    exact Nat.lt_trans h.digits (by norm_num)
  have hexponent := h.exponent
  unfold Binary64.ofDecimal?
  simp only
  by_cases hzero : d.digits = 0
  · rw [if_pos (.inl hzero)]
    have hnum : d.ratio.1 = 0 := by simp [Decimal.ratio, hzero]
    have hunits : (zero negative).units = 0 := rfl
    refine (ofRatio?_exact (zero negative) (Decimal.ratio_pos d) ?_).symm
    rw [hnum, hunits]
    generalize Nat.pow 2 1074 = steps
    omega
  · rw [if_neg (by omega), if_neg (by omega)]

/-- **Short decimals are read exactly:** as the nearest binary number. -/
theorem binaryOf?_short {l : NumberLiteral} (h : Short l.decimal) :
    binaryOf? l = Binary64.ofDecimal? l.negative l.decimal := by
  obtain ⟨x, hx, hsign, hunits⟩ := ofRatio?_short h.digits
  have hfits : l.decimal.digits ≤ 18446744073709551615 := Nat.le_trans h.digits.le (by norm_num)
  rw [ofDecimal?_short _ h, ← ofRatio?_sign, ← scale?_short hsign hunits h.exponent]
  unfold binaryOf?
  rw [fittingDecimal_fits hfits]
  simp only [hx, Option.bind_eq_bind, Option.bind_some]
  cases scale? x l.decimal.exponent with
  | none => rfl
  | some magnitude => rfl

/-- Binary numbers that print as short decimals are read back. -/
theorem readsBack_short {x : Binary64} (h : Short x.literal.decimal) : ReadsBack (.binary x) := by
  show numberOf? x.literal = some (.binary x)
  unfold numberOf?
  rw [x.whole?_literal, binaryOf?_short h, x.negative_literal, x.ofDecimal?_literal]
  split <;> rfl

/-- The numbers of a value are read back if those that are binary print as short decimals. -/
theorem numbersReadBack_short {v : Json} (h : ∀ x, .binary x ∈ v.numbers → Short x.literal.decimal) :
    v.NumbersReadBack := by
  intro n hn
  cases n with
  | whole value fits => exact readsBack_whole value fits
  | binary x => exact readsBack_short (h x hn)

end TagQuery.Json
