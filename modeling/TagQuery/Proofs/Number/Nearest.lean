import Mathlib.Algebra.Order.Field.Rat
import Mathlib.Tactic.FieldSimp
import Mathlib.Tactic.Linarith
import Mathlib.Tactic.Positivity
import TagQuery.Proofs.Number.Rounding

/-!
# The nearest binary number

`Binary64.ofDecimal?` rounds correctly: its answer is a number that no other is nearer to the decimal
than, a tie goes to the even significand, and there is no answer just from half a step beyond the
largest number on:

    ofDecimal? negative d = some x ↔
      x.negative = negative ∧ x.IsNearest d.value ∧ d.value < beyond             (ofDecimal?_eq_some_iff)

Only one number with a given sign is the nearest one (`IsNearest.unique`): between two that are equally near
and both even there is a third.
-/

namespace TagQuery.Number

/-! ## Rounding to whole numbers -/

section

variable {n d : Nat}

/-- The rounded quotient is at most half a step away, and at half a step it is even. -/
theorem roundHalfEven_spec (hd : 0 < d) :
    2 * n ≤ 2 * (roundHalfEven n d * d) + d ∧ 2 * (roundHalfEven n d * d) ≤ 2 * n + d
      ∧ (2 * n = 2 * (roundHalfEven n d * d) + d ∨ 2 * (roundHalfEven n d * d) = 2 * n + d →
          roundHalfEven n d % 2 = 0) := by
  have hdiv := Nat.div_add_mod n d
  have hmod := Nat.mod_lt n hd
  unfold roundHalfEven
  simp only
  generalize n / d = q at hdiv ⊢
  generalize n % d = r at hdiv hmod ⊢
  rw [Nat.mul_comm] at hdiv
  split
  · omega
  · rw [Nat.add_one_mul q d]
    omega

/-- No whole number is nearer to the quotient than the rounded one, and another is as near only if that is
even. -/
theorem roundHalfEven_closest (hd : 0 < d) (j : Nat) :
    |((roundHalfEven n d * d : Nat) : ℤ) - n| ≤ |((j * d : Nat) : ℤ) - n|
      ∧ (|((roundHalfEven n d * d : Nat) : ℤ) - n| = |((j * d : Nat) : ℤ) - n| →
          j ≠ roundHalfEven n d → roundHalfEven n d % 2 = 0) := by
  obtain ⟨hup, hlow, heven⟩ := roundHalfEven_spec (n := n) hd
  generalize roundHalfEven n d = m at hup hlow heven ⊢
  -- another whole number is a whole step away
  have hstep : j = m ∨ j * d + d ≤ m * d ∨ m * d + d ≤ j * d := by
    rcases Nat.lt_trichotomy j m with h | h | h
    · exact .inr (.inl (Nat.succ_mul j d ▸ Nat.mul_le_mul_right d h))
    · exact .inl h
    · exact .inr (.inr (Nat.succ_mul m d ▸ Nat.mul_le_mul_right d h))
  rcases hstep with rfl | hstep
  · exact ⟨le_rfl, fun _ hne => absurd rfl hne⟩
  · generalize m * d = p at hup hlow heven hstep ⊢
    generalize j * d = q at hstep ⊢
    rcases abs_cases ((p : ℤ) - n) with ⟨hp, hp'⟩ | ⟨hp, hp'⟩ <;>
      rcases abs_cases ((q : ℤ) - n) with ⟨hq, hq'⟩ | ⟨hq, hq'⟩ <;>
      rw [hp, hq] <;> omega

end

namespace Binary64

/-! ## Quotients -/

theorem of_ofParts? {negative : Bool} {significand exponent : Nat} {x : Binary64}
    (h : ofParts? negative significand exponent = some x) :
    x.negative = negative ∧ x.significand = significand ∧ x.exponent = exponent := by
  unfold ofParts? at h
  split at h
  · obtain rfl := Option.some.inj h
    exact ⟨rfl, rfl, rfl⟩
  · simp at h

theorem isSome_ofParts?_iff {negative : Bool} {significand exponent : Nat} :
    (ofParts? negative significand exponent).isSome ↔
      (significand < 2 ^ 53 ∧ exponent ≤ 2045) ∧ (exponent = 0 ∨ 2 ^ 52 ≤ significand) := by
  unfold ofParts?
  split
  · next h => exact iff_of_true rfl h
  · next h => exact iff_of_false (by simp) h

section

variable {n d : Nat}

/-- The exponent of the numbers around a quotient. -/
def exponentOf (n d : Nat) : Nat :=
  (n / d).log2 - 52

/-- The significand that a quotient is rounded to. -/
def significandOf (n d : Nat) : Nat :=
  roundHalfEven n (d * 2 ^ exponentOf n d)

/-- A quotient has 53 bits at most above the step of its exponent, and just 53 above any step but the
least. -/
theorem exponentOf_spec (hd : 0 < d) :
    n < 2 ^ 53 * (d * 2 ^ exponentOf n d)
      ∧ (exponentOf n d ≠ 0 → 2 ^ 52 * (d * 2 ^ exponentOf n d) ≤ n) := by
  have hpow : ∀ k e : Nat, 2 ^ k * (d * 2 ^ e) = 2 ^ (k + e) * d := by
    intro k e
    rw [pow_add]
    ring
  rw [hpow, hpow]
  unfold exponentOf
  constructor
  · have hlog : n / d < 2 ^ (53 + ((n / d).log2 - 52)) :=
      Nat.lt_of_lt_of_le Nat.lt_log2_self (Nat.pow_le_pow_right (by omega) (by omega))
    exact (Nat.div_lt_iff_lt_mul hd).1 hlog
  · intro he
    have hne : n / d ≠ 0 := by
      intro hzero
      simp [hzero] at he
    have hlog : 2 ^ (52 + ((n / d).log2 - 52)) ≤ n / d := by
      rw [show 52 + ((n / d).log2 - 52) = (n / d).log2 by omega]
      exact Nat.log2_self_le hne
    exact (Nat.le_div_iff_mul_le hd).1 hlog

theorem significandOf_spec (hd : 0 < d) :
    significandOf n d ≤ 2 ^ 53 ∧ (exponentOf n d ≠ 0 → 2 ^ 52 ≤ significandOf n d) := by
  obtain ⟨hlt, hle⟩ := exponentOf_spec (n := n) hd
  have hstep : 0 < d * 2 ^ exponentOf n d := Nat.mul_pos hd (Nat.pow_pos (by omega))
  obtain ⟨hup, hlow, -⟩ := roundHalfEven_spec (n := n) hstep
  unfold significandOf
  generalize d * 2 ^ exponentOf n d = step at *
  generalize roundHalfEven n step = m at *
  constructor
  · by_contra hm
    have := Nat.mul_le_mul_right step (show 2 ^ 53 + 1 ≤ m by omega)
    rw [Nat.add_one_mul] at this
    omega
  · intro he
    have hlow := hle he
    by_contra hm
    have := Nat.mul_le_mul_right step (show m + 1 ≤ 2 ^ 52 by omega)
    rw [Nat.add_one_mul] at this
    omega

/-- A number whose step is shorter than that of the quotient lies below all significands of the quotient. -/
theorem units_lt_of_exponent_lt {y : Binary64} {e : Nat} (h : y.exponent < e) :
    y.units < 2 ^ 52 * 2 ^ e := by
  have hs : y.significand < 2 ^ 53 := y.inFormat.1
  calc y.significand * 2 ^ y.exponent
      < 2 ^ 53 * 2 ^ y.exponent := Nat.mul_lt_mul_of_pos_right hs (Nat.pow_pos (by omega))
    _ = 2 ^ 52 * 2 ^ (y.exponent + 1) := by rw [pow_succ 2 y.exponent]; ring
    _ ≤ 2 ^ 52 * 2 ^ e := Nat.mul_le_mul_left _ (Nat.pow_le_pow_right (by omega) h)

/-- No number is nearer to a quotient than its significand with its exponent, and another one is as near
only if the significand is even. -/
theorem significandOf_closest (hd : 0 < d) (y : Binary64) :
    |((significandOf n d * 2 ^ exponentOf n d * d : Nat) : ℤ) - n| ≤ |((y.units * d : Nat) : ℤ) - n|
      ∧ (|((significandOf n d * 2 ^ exponentOf n d * d : Nat) : ℤ) - n|
            = |((y.units * d : Nat) : ℤ) - n| →
          y.units ≠ significandOf n d * 2 ^ exponentOf n d → significandOf n d % 2 = 0) := by
  have hstep : 0 < d * 2 ^ exponentOf n d := Nat.mul_pos hd (Nat.pow_pos (by omega))
  have hm : significandOf n d * 2 ^ exponentOf n d * d
      = significandOf n d * (d * 2 ^ exponentOf n d) := by ring
  rw [hm]
  by_cases he : exponentOf n d ≤ y.exponent
  · -- on the grid of the quotient's step the rounded quotient is the nearest point
    have hy : y.units * d
        = y.significand * 2 ^ (y.exponent - exponentOf n d) * (d * 2 ^ exponentOf n d) := by
      calc y.units * d = y.significand * 2 ^ y.exponent * d := rfl
        _ = y.significand * 2 ^ (y.exponent - exponentOf n d + exponentOf n d) * d := by
          rw [Nat.sub_add_cancel he]
        _ = _ := by rw [pow_add]; ring
    obtain ⟨hclosest, heven⟩ := roundHalfEven_closest (n := n) hstep
      (y.significand * 2 ^ (y.exponent - exponentOf n d))
    rw [hy]
    refine ⟨hclosest, fun htie hne => heven htie fun hsame => hne ?_⟩
    have hcancel := hy
    rw [hsame, show roundHalfEven n (d * 2 ^ exponentOf n d) = significandOf n d from rfl, ← hm]
      at hcancel
    exact Nat.eq_of_mul_eq_mul_right hd hcancel
  · -- below that grid the least significand of the quotient's exponent is nearer
    obtain ⟨-, hle⟩ := exponentOf_spec (n := n) hd
    have hlow := hle (by omega)
    obtain ⟨hclosest, -⟩ := roundHalfEven_closest (n := n) hstep (2 ^ 52)
    have hlt : y.units * d < 2 ^ 52 * (d * 2 ^ exponentOf n d) := by
      calc y.units * d < 2 ^ 52 * 2 ^ exponentOf n d * d :=
            Nat.mul_lt_mul_of_pos_right (units_lt_of_exponent_lt (Nat.not_le.1 he)) hd
        _ = _ := by ring
    have hfar : |((2 ^ 52 * (d * 2 ^ exponentOf n d) : Nat) : ℤ) - n|
        < |((y.units * d : Nat) : ℤ) - n| := by
      generalize 2 ^ 52 * (d * 2 ^ exponentOf n d) = least at hlow hlt ⊢
      rw [abs_of_nonpos (by omega), abs_of_nonpos (by omega)]
      omega
    have hless := lt_of_le_of_lt hclosest hfar
    exact ⟨hless.le, fun htie _ => absurd htie hless.ne⟩

end

/-- The significand and its exponent stay within a greatest exponent just below half a step beyond the
numbers of that exponent. -/
theorem fits_iff {n d : Nat} (hd : 0 < d) (k : Nat) :
    (if significandOf n d = 2 ^ 53 then exponentOf n d ≤ k else exponentOf n d ≤ k + 1) ↔
      n < (2 ^ 54 - 1) * (2 ^ k * d) := by
  obtain ⟨hlt, hle⟩ := exponentOf_spec (n := n) hd
  obtain ⟨hm, -⟩ := significandOf_spec (n := n) hd
  have hstep : 0 < d * 2 ^ exponentOf n d := Nat.mul_pos hd (Nat.pow_pos (by omega))
  obtain ⟨hup, hlow, heven⟩ := roundHalfEven_spec (n := n) hstep
  change 2 * n ≤ 2 * (significandOf n d * (d * 2 ^ exponentOf n d)) + _ at hup
  change 2 * (significandOf n d * (d * 2 ^ exponentOf n d)) ≤ _ at hlow
  change 2 * n = 2 * (significandOf n d * (d * 2 ^ exponentOf n d)) + _ ∨ _ → significandOf n d % 2 = 0
    at heven
  have hpos : 0 < 2 ^ k * d := Nat.mul_pos (Nat.pow_pos (by omega)) hd
  have hscale : ∀ e c : Nat, d * 2 ^ (e + c) = 2 ^ c * (2 ^ e * d) := by
    intro e c
    rw [pow_add]
    ring
  generalize significandOf n d = m at *
  generalize exponentOf n d = e at *
  rcases Nat.lt_trichotomy e (k + 1) with he | rfl | he
  · -- the quotient lies in a lower range
    have hshort : d * 2 ^ e ≤ 2 ^ k * d := by
      rw [Nat.mul_comm]
      exact Nat.mul_le_mul_right d (Nat.pow_le_pow_right (by omega) (by omega))
    refine iff_of_true (by split <;> omega) ?_
    generalize d * 2 ^ e = step at *
    omega
  · -- in the last range it is the significand that decides
    rw [hscale k 1] at *
    generalize 2 ^ k * d = half at *
    split
    · next hcarry =>
      subst hcarry
      exact iff_of_false (by omega) (by omega)
    · next hshort =>
      refine iff_of_true le_rfl ?_
      have hodd : m = 2 ^ 53 - 1 ∨ m + 2 ≤ 2 ^ 53 := by omega
      rcases hodd with rfl | hless
      · omega
      · have := Nat.mul_le_mul_right (2 ^ 1 * half) hless
        rw [Nat.add_mul] at this
        omega
  · -- the quotient lies in a higher range
    obtain ⟨c, rfl⟩ : ∃ c, e = k + (2 + c) := ⟨e - k - 2, by omega⟩
    have hlong : 4 * (2 ^ k * d) ≤ d * 2 ^ (k + (2 + c)) := by
      rw [hscale]
      exact Nat.mul_le_mul_right _
        (show 2 ^ 2 ≤ 2 ^ (2 + c) from Nat.pow_le_pow_right (by omega) (by omega))
    have hfar := hle (by omega)
    refine iff_of_false (by split <;> omega) ?_
    generalize d * 2 ^ (k + (2 + c)) = step at *
    omega

section

variable {negative : Bool} {num den : Nat} {x : Binary64}

/-- How many steps of the least number make up one. -/
@[irreducible] def stepsOfOne : Nat := Nat.pow 2 1074

/-- Half a step beyond the largest number. -/
@[irreducible] def beyond : Nat := (2 ^ 54 - 1) * Nat.pow 2 970

theorem stepsOfOne_pos : 0 < stepsOfOne := by
  have hpow : ∀ k, 0 < Nat.pow 2 k := fun _ => Nat.pow_pos (by omega)
  unfold stepsOfOne
  exact hpow 1074

/-- The significand and the exponent, carried over where the significand has become too long. -/
theorem ofRatio?_eq (negative : Bool) (num den : Nat) :
    ofRatio? negative num den
      = if significandOf (num * stepsOfOne) den = 2 ^ 53 then
          ofParts? negative (2 ^ 52) (exponentOf (num * stepsOfOne) den + 1)
        else
          ofParts? negative (significandOf (num * stepsOfOne) den) (exponentOf (num * stepsOfOne) den) := by
  unfold ofRatio? stepsOfOne
  generalize Nat.pow 2 1074 = steps
  rfl

theorem of_ofRatio? (h : ofRatio? negative num den = some x) :
    x.negative = negative
      ∧ x.units = significandOf (num * stepsOfOne) den * 2 ^ exponentOf (num * stepsOfOne) den
      ∧ (significandOf (num * stepsOfOne) den % 2 = 0 → x.significand % 2 = 0) := by
  rw [ofRatio?_eq] at h
  generalize num * stepsOfOne = n at h ⊢
  have hunits : x.units = x.significand * 2 ^ x.exponent := rfl
  split at h
  · next hcarry =>
    obtain ⟨hneg, hsig, hexp⟩ := of_ofParts? h
    refine ⟨hneg, ?_, fun _ => by rw [hsig]; rfl⟩
    rw [hunits, hsig, hexp, hcarry, pow_succ 2 (exponentOf n den)]
    ring
  · obtain ⟨hneg, hsig, hexp⟩ := of_ofParts? h
    exact ⟨hneg, by rw [hunits, hsig, hexp], fun heven => by rw [hsig]; exact heven⟩

/-- Steps of `2 ^ -a` in front of a bound. -/
theorem mul_pow_lt_iff (c num den a b : Nat) :
    num * Nat.pow 2 a < c * (2 ^ (b + a) * den) ↔ num < c * Nat.pow 2 b * den := by
  have hunit : 0 < Nat.pow 2 a := Nat.pow_pos (by omega)
  have hbound : c * (2 ^ (b + a) * den) = c * Nat.pow 2 b * den * Nat.pow 2 a := by
    rw [pow_add, Nat.pow_eq, Nat.pow_eq]
    ring
  rw [hbound, Nat.mul_lt_mul_right hunit]

/-- There is an answer just below half a step beyond the largest number. -/
theorem isSome_ofRatio?_iff (hd : 0 < den) :
    (ofRatio? negative num den).isSome ↔ num < beyond * den := by
  have hbound : num * stepsOfOne < (2 ^ 54 - 1) * (2 ^ (970 + 1074) * den) ↔ num < beyond * den := by
    unfold stepsOfOne beyond
    generalize 1074 = a
    generalize 970 = b
    exact mul_pow_lt_iff (2 ^ 54 - 1) num den a b
  rw [← hbound, ← fits_iff hd, ofRatio?_eq]
  generalize num * stepsOfOne = n
  obtain ⟨hm, hnormal⟩ := significandOf_spec (n := n) hd
  split
  · rw [isSome_ofParts?_iff]
    omega
  · rw [isSome_ofParts?_iff]
    omega

end

/-! ## Magnitudes -/

/-- The magnitude of a number. -/
def magnitude (x : Binary64) : ℚ :=
  x.units / stepsOfOne

/-- No number is nearer to `q` than `x`, and if another one is as near then the significand of `x` is
even. -/
structure IsNearest (x : Binary64) (q : ℚ) : Prop where
  closest : ∀ y : Binary64, |x.magnitude - q| ≤ |y.magnitude - q|
  even : ∀ y : Binary64, |x.magnitude - q| = |y.magnitude - q| → y.magnitude ≠ x.magnitude →
    x.significand % 2 = 0

/-- Distances to a quotient, in whole steps of their common denominator. -/
theorem distance_eq (x : Binary64) {num den : Nat} (hd : 0 < den) :
    |x.magnitude - (num : ℚ) / den|
      = ((|((x.units * den : Nat) : ℤ) - (num * stepsOfOne : Nat)| : ℤ) : ℚ) / (stepsOfOne * den) := by
  have hsteps : (stepsOfOne : ℚ) ≠ 0 := by exact_mod_cast stepsOfOne_pos.ne'
  have hden : (den : ℚ) ≠ 0 := by exact_mod_cast hd.ne'
  have hpos : (0 : ℚ) < stepsOfOne * den := by positivity
  have hdiff : (x.units : ℚ) / stepsOfOne - num / den
      = (x.units * den - num * stepsOfOne) / (stepsOfOne * den) := by
    field_simp
  rw [magnitude, hdiff, abs_div, abs_of_pos hpos]
  push_cast
  rfl

theorem isNearest_of_ofRatio? {negative : Bool} {num den : Nat} {x : Binary64} (hd : 0 < den)
    (h : ofRatio? negative num den = some x) : x.IsNearest ((num : ℚ) / den) := by
  obtain ⟨-, hunits, heven⟩ := of_ofRatio? h
  have hpos : (0 : ℚ) < stepsOfOne * den := by exact_mod_cast Nat.mul_pos stepsOfOne_pos hd
  constructor
  · intro y
    obtain ⟨hclosest, -⟩ := significandOf_closest (n := num * stepsOfOne) hd y
    rw [distance_eq x hd, distance_eq y hd, hunits]
    gcongr
  · intro y htie hne
    obtain ⟨-, htied⟩ := significandOf_closest (n := num * stepsOfOne) hd y
    rw [distance_eq x hd, distance_eq y hd, hunits, div_left_inj' hpos.ne'] at htie
    refine heven (htied (by exact_mod_cast htie) fun hsame => hne ?_)
    rw [magnitude, magnitude, hsame, hunits]

/-! ## Only one is the nearest -/

section

variable {x y : Binary64} {q : ℚ}

theorem exponent_le_of_units_le (h : x.units ≤ y.units) : x.exponent ≤ y.exponent := by
  rw [← log2_units x, ← log2_units y]
  have : x.units.log2 ≤ y.units.log2 := by
    by_cases hx : x.units = 0
    · simp [hx]
    · exact (Nat.le_log2 (by omega)).2 ((Nat.log2_self_le hx).trans h)
  omega

/-- Numbers of one sign and of one magnitude are the same. -/
theorem eq_of_units (hunits : x.units = y.units) (hsign : x.negative = y.negative) : x = y := by
  have hexp : x.exponent = y.exponent :=
    Nat.le_antisymm (exponent_le_of_units_le hunits.le) (exponent_le_of_units_le hunits.ge)
  have hsig : x.significand = y.significand := by
    unfold units at hunits
    rw [hexp] at hunits
    exact Nat.eq_of_mul_eq_mul_right (Nat.pow_pos (by omega)) hunits
  obtain ⟨negative, significand, exponent, hx, hx'⟩ := x
  obtain ⟨negative', significand', exponent', hy, hy'⟩ := y
  obtain rfl : negative = negative' := hsign
  obtain rfl : significand = significand' := hsig
  obtain rfl : exponent = exponent' := hexp
  rfl

/-- Between a number with an even significand and a greater one with an even significand there is
another. -/
theorem exists_between (hx : x.significand % 2 = 0) (hy : y.significand % 2 = 0) (h : x.units < y.units) :
    ∃ z : Binary64, x.units < z.units ∧ z.units < y.units := by
  have hbound : x.significand < 2 ^ 53 := x.inFormat.1
  have hnormal : x.exponent = 0 ∨ 2 ^ 52 ≤ x.significand := x.normalized
  have hpos : 0 < 2 ^ x.exponent := Nat.pow_pos (by omega)
  obtain ⟨c, hc⟩ := Nat.exists_eq_add_of_le (exponent_le_of_units_le h.le)
  have hgrid : y.units = y.significand * 2 ^ c * 2 ^ x.exponent := by
    rw [units, hc, Nat.pow_eq, pow_add]
    ring
  have hless : x.significand < y.significand * 2 ^ c :=
    Nat.lt_of_mul_lt_mul_right (a := 2 ^ x.exponent) (hgrid ▸ h)
  -- the significand of `y` on the grid of `x` is even too, so it is not the next one
  have hnext : x.significand + 1 < y.significand * 2 ^ c := by
    have : y.significand * 2 ^ c % 2 = 0 := by
      rw [Nat.mul_mod, hy, Nat.zero_mul, Nat.zero_mod]
    omega
  refine ⟨⟨false, x.significand + 1, x.exponent, ⟨?_, x.inFormat.2⟩, ?_⟩, ?_, ?_⟩
  · show x.significand + 1 < 2 ^ 53
    omega
  · show x.exponent = 0 ∨ 2 ^ 52 ≤ x.significand + 1
    omega
  · exact Nat.mul_lt_mul_of_pos_right (Nat.lt_succ_self _) hpos
  · rw [hgrid]
    exact Nat.mul_lt_mul_of_pos_right hnext hpos

theorem magnitude_lt_iff : x.magnitude < y.magnitude ↔ x.units < y.units := by
  have hsteps : (0 : ℚ) < stepsOfOne := by exact_mod_cast stepsOfOne_pos
  rw [magnitude, magnitude, div_lt_div_iff_of_pos_right hsteps]
  exact_mod_cast Iff.rfl

/-- Of two nearest numbers none is the greater. -/
theorem IsNearest.units_le (hx : x.IsNearest q) (hy : y.IsNearest q) : y.units ≤ x.units := by
  by_contra hlt
  have hless : x.magnitude < y.magnitude := magnitude_lt_iff.2 (by omega)
  have htie : |x.magnitude - q| = |y.magnitude - q| := le_antisymm (hx.closest y) (hy.closest x)
  obtain ⟨z, hxz, hzy⟩ :=
    exists_between (hx.even y htie hless.ne') (hy.even x htie.symm hless.ne) (by omega)
  have hz := hx.closest z
  rw [← magnitude_lt_iff] at hxz hzy
  rcases abs_cases (x.magnitude - q) with ⟨h, h'⟩ | ⟨h, h'⟩ <;>
    rcases abs_cases (y.magnitude - q) with ⟨k, k'⟩ | ⟨k, k'⟩ <;>
    rcases abs_cases (z.magnitude - q) with ⟨l, l'⟩ | ⟨l, l'⟩ <;> linarith

theorem IsNearest.unique (hx : x.IsNearest q) (hy : y.IsNearest q) (hsign : x.negative = y.negative) :
    x = y :=
  eq_of_units (Nat.le_antisymm (hy.units_le hx) (hx.units_le hy)) hsign

end

end Binary64

/-- The value of a decimal. -/
def Decimal.value (d : Decimal) : ℚ :=
  d.digits * 10 ^ d.exponent

/-! ## Decimals -/

section

variable (d : Decimal)

theorem ratio_eq : (d.ratio.1 : ℚ) / d.ratio.2 = d.value := by
  have hexp : (d.exponent.toNat : ℤ) - (-d.exponent).toNat = d.exponent :=
    Int.toNat_sub_toNat_neg d.exponent
  have hpow : (10 : ℚ) ^ d.exponent = 10 ^ d.exponent.toNat / 10 ^ (-d.exponent).toNat := by
    rw [← zpow_natCast, ← zpow_natCast, ← zpow_sub₀ (by norm_num), hexp]
  rw [Decimal.value, hpow, mul_div_assoc']
  simp [Decimal.ratio]

/-- The size of a decimal tells the power of ten that its value stays below. -/
theorem value_lt : d.value < 10 ^ ((digitsOf d.digits).length + d.exponent) := by
  have hdigits : (d.digits : ℚ) < 10 ^ (digitsOf d.digits).length := by
    exact_mod_cast lt_pow_length d.digits
  have hpos : (0 : ℚ) < 10 ^ d.exponent := zpow_pos (by norm_num) _
  rw [zpow_add₀ (by norm_num), zpow_natCast]
  exact mul_lt_mul_of_pos_right hdigits hpos

/-- And the one that it reaches. -/
theorem le_value (h : d.digits ≠ 0) :
    10 ^ ((digitsOf d.digits).length + d.exponent - 1) ≤ d.value := by
  have hdigits : (10 : ℚ) ^ ((digitsOf d.digits).length - 1) ≤ d.digits := by
    exact_mod_cast pow_length_le (Nat.pos_of_ne_zero h)
  have hlength := length_digitsOf_pos d.digits
  have hpos : (0 : ℚ) ≤ 10 ^ d.exponent := zpow_nonneg (by norm_num) _
  rw [show ((digitsOf d.digits).length : ℤ) + d.exponent - 1
      = ((digitsOf d.digits).length - 1 : Nat) + d.exponent by omega,
    zpow_add₀ (by norm_num), zpow_natCast]
  exact mul_le_mul_of_nonneg_right hdigits hpos

end

namespace Binary64

/-- Zero is the nearest number to what is less than half the least one. -/
theorem isNearest_zero {negative : Bool} {q : ℚ} (hq : 0 ≤ q) (small : q * (2 * stepsOfOne) < 1) :
    (zero negative).IsNearest q := by
  have hsteps : (0 : ℚ) < stepsOfOne := by exact_mod_cast stepsOfOne_pos
  have hzero : (zero negative).magnitude = 0 := by simp [magnitude, units, zero]
  have hother : ∀ y : Binary64, y.magnitude ≠ 0 → q < |y.magnitude - q| := by
    intro y hy
    have hunits : y.units ≠ 0 := by
      intro h
      simp [magnitude, h] at hy
    have hone : 1 / (stepsOfOne : ℚ) ≤ y.magnitude := by
      have : (1 : ℚ) ≤ y.units := by exact_mod_cast Nat.pos_of_ne_zero hunits
      exact div_le_div_of_nonneg_right this hsteps.le
    have htwice : 2 * q < 1 / stepsOfOne := by
      rw [lt_div_iff₀ hsteps]
      linarith
    exact lt_of_lt_of_le (by linarith) (le_abs_self _)
  constructor
  · intro y
    rw [hzero, zero_sub, abs_neg, abs_of_nonneg hq]
    by_cases hy : y.magnitude = 0
    · rw [hy, zero_sub, abs_neg, abs_of_nonneg hq]
    · exact (hother y hy).le
  · intro y htie hne
    rw [hzero] at hne htie
    rw [zero_sub, abs_neg, abs_of_nonneg hq] at htie
    exact absurd htie (hother y hne).ne

section

variable {negative : Bool} {d : Decimal} {x : Binary64}

theorem value_nonneg (d : Decimal) : 0 ≤ d.value :=
  mul_nonneg (Nat.cast_nonneg _) (zpow_nonneg (by norm_num) _)

theorem value_small (h : (digitsOf d.digits).length + d.exponent < -330) :
    d.value * (2 * stepsOfOne) < 1 := by
  have hvalue : d.value < (10 ^ 330)⁻¹ := by
    calc d.value < 10 ^ ((digitsOf d.digits).length + d.exponent) := value_lt d
      _ ≤ 10 ^ (-330 : ℤ) := zpow_le_zpow_right₀ (by norm_num) h.le
      _ = (10 ^ 330)⁻¹ := by rw [zpow_neg]; rfl
  have hsteps : (2 * stepsOfOne : ℚ) ≤ 10 ^ 330 := by
    have : 2 * stepsOfOne ≤ 10 ^ 330 := by
      unfold stepsOfOne
      decide +kernel
    exact_mod_cast this
  have hpos : (0 : ℚ) < 10 ^ 330 := by positivity
  calc d.value * (2 * stepsOfOne) ≤ d.value * 10 ^ 330 := by
        gcongr
        exact value_nonneg d
    _ < (10 ^ 330)⁻¹ * 10 ^ 330 := mul_lt_mul_of_pos_right hvalue hpos
    _ = 1 := inv_mul_cancel₀ hpos.ne'

/-- The answer is the nearest number to the decimal, with the sign that was asked for. -/
theorem isNearest_of_ofDecimal? (h : ofDecimal? negative d = some x) :
    x.negative = negative ∧ x.IsNearest d.value := by
  unfold ofDecimal? at h
  simp only at h
  split at h
  · next hsmall =>
    obtain rfl := Option.some.inj h
    refine ⟨rfl, isNearest_zero (value_nonneg d) ?_⟩
    rcases hsmall with hzero | hsize
    · simp [Decimal.value, hzero]
    · exact value_small hsize
  · split at h
    · simp at h
    · rw [← ratio_eq]
      exact ⟨(of_ofRatio? h).1, isNearest_of_ofRatio? (Decimal.ratio_pos d) h⟩

/-- There is an answer just below half a step beyond the largest number. -/
theorem isSome_ofDecimal?_iff : (ofDecimal? negative d).isSome ↔ d.value < beyond := by
  unfold ofDecimal?
  simp only
  split
  · next hsmall =>
    have hone : d.value < 1 := by
      rcases hsmall with hzero | hsize
      · simp [Decimal.value, hzero]
      · calc d.value < 10 ^ ((digitsOf d.digits).length + d.exponent) := value_lt d
          _ ≤ 10 ^ (0 : ℤ) := zpow_le_zpow_right₀ (by norm_num) (by omega)
          _ = 1 := zpow_zero _
    have hbeyond : (1 : ℚ) ≤ beyond := by
      have : 1 ≤ beyond := by
        unfold beyond
        decide +kernel
      exact_mod_cast this
    exact iff_of_true rfl (hone.trans_le hbeyond)
  · next hlarge =>
    split
    · next hsize =>
      have hvalue : (10 : ℚ) ^ 310 ≤ d.value := by
        calc (10 : ℚ) ^ 310 = 10 ^ (310 : ℤ) := rfl
          _ ≤ 10 ^ ((digitsOf d.digits).length + d.exponent - 1) :=
            zpow_le_zpow_right₀ (by norm_num) (by omega)
          _ ≤ d.value := le_value d (by tauto)
      have hbeyond : (beyond : ℚ) ≤ 10 ^ 310 := by
        have : beyond ≤ 10 ^ 310 := by
          unfold beyond
          decide +kernel
        exact_mod_cast this
      exact iff_of_false (by simp) (not_lt.2 (hbeyond.trans hvalue))
    · have hpos : (0 : ℚ) < d.ratio.2 := by exact_mod_cast Decimal.ratio_pos d
      rw [isSome_ofRatio?_iff (Decimal.ratio_pos d), ← ratio_eq, div_lt_iff₀ hpos]
      exact_mod_cast Iff.rfl

/-- The answer is the one nearest number, if the decimal is not too large for one. -/
theorem ofDecimal?_eq_some_iff :
    ofDecimal? negative d = some x ↔
      x.negative = negative ∧ x.IsNearest d.value ∧ d.value < beyond := by
  constructor
  · intro h
    obtain ⟨hsign, hnearest⟩ := isNearest_of_ofDecimal? h
    exact ⟨hsign, hnearest, isSome_ofDecimal?_iff.1 (h ▸ rfl : (ofDecimal? negative d).isSome)⟩
  · rintro ⟨hsign, hnearest, hfinite⟩
    have hsome : (ofDecimal? negative d).isSome := isSome_ofDecimal?_iff.2 hfinite
    obtain ⟨y, hy⟩ := Option.isSome_iff_exists.1 hsome
    obtain ⟨hsign', hnearest'⟩ := isNearest_of_ofDecimal? hy
    rw [hy, hnearest'.unique hnearest (hsign'.trans hsign.symm)]

end

end Binary64

end TagQuery.Number
