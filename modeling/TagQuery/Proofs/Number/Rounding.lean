import TagQuery.Number.Shortest
import TagQuery.Proofs.Number.Digits

/-!
# Rounding decimals to binary numbers

`Binary64.ofDecimal?` looks at the value of a decimal alone, and gives back every binary number that a
decimal is the exact value of.  So the shortest decimal of a number reads back as the number:

    ofDecimal? negative ⟨m * 10 ^ k, e - k⟩ = ofDecimal? negative ⟨m, e⟩    (ofDecimal?_scale)
    ofDecimal? x.negative (exact x) = some x                               (ofDecimal?_exact)
    ofDecimal? x.negative (shortest x) = some x                            (ofDecimal?_shortest)
-/

namespace TagQuery.Number

/-! ## Equal quotients are rounded alike -/

theorem roundHalfEven_mul_right (n d : Nat) {c : Nat} (hc : 0 < c) :
    roundHalfEven (n * c) (d * c) = roundHalfEven n d := by
  have hlt : 2 * (n % d * c) < d * c ↔ 2 * (n % d) < d := by
    rw [← Nat.mul_assoc]
    exact Nat.mul_lt_mul_right hc
  have heq : 2 * (n % d * c) = d * c ↔ 2 * (n % d) = d := by
    rw [← Nat.mul_assoc]
    exact Nat.mul_left_inj (by omega)
  simp only [roundHalfEven, Nat.mul_div_mul_right _ _ hc, Nat.mul_mod_mul_right, hlt, heq]

theorem roundHalfEven_congr {n d n' d' : Nat} (hd : 0 < d) (hd' : 0 < d') (h : n * d' = n' * d) :
    roundHalfEven n d = roundHalfEven n' d' := by
  rw [← roundHalfEven_mul_right n d hd', ← roundHalfEven_mul_right n' d' hd, h, Nat.mul_comm d d']

namespace Binary64

theorem ofRatio?_congr (negative : Bool) {num den num' den' : Nat} (hd : 0 < den) (hd' : 0 < den')
    (h : num * den' = num' * den) : ofRatio? negative num den = ofRatio? negative num' den' := by
  unfold ofRatio?
  generalize Nat.pow 2 1074 = unit
  have hunits : num * unit * den' = num' * unit * den := by
    rw [Nat.mul_right_comm, h, Nat.mul_right_comm]
  have hdiv : num * unit / den = num' * unit / den' := by
    rw [← Nat.mul_div_mul_right _ _ hd', hunits, Nat.mul_comm den den', Nat.mul_div_mul_right _ _ hd]
  have hround : ∀ e, roundHalfEven (num * unit) (den * Nat.pow 2 e)
      = roundHalfEven (num' * unit) (den' * Nat.pow 2 e) := by
    intro e
    have hp : 0 < Nat.pow 2 e := Nat.pow_pos (by omega)
    apply roundHalfEven_congr (Nat.mul_pos hd hp) (Nat.mul_pos hd' hp)
    rw [← Nat.mul_assoc, hunits, Nat.mul_assoc]
  simp only [hdiv, hround]

/-! ## Exact quotients -/

/-- A significand and exponent of the format are found again from their product. -/
theorem log2_units (x : Binary64) : x.units.log2 - 52 = x.exponent := by
  have hs : x.significand < 2 ^ 53 := x.inFormat.1
  rcases x.normalized with h0 | hn
  · have hu : x.units = x.significand := by simp [units, h0]
    rw [hu, h0]
    by_cases hz : x.significand = 0
    · simp [hz]
    · have := (Nat.log2_lt hz).2 hs
      omega
  · replace hn : 2 ^ 52 ≤ x.significand := hn
    have hu : x.units = x.significand * 2 ^ x.exponent := rfl
    have hne : x.units ≠ 0 := by
      rw [hu]
      have : 0 < 2 ^ x.exponent := Nat.pow_pos (by omega)
      exact Nat.mul_ne_zero (by omega) (by omega)
    have hlog : x.units.log2 = 52 + x.exponent := by
      rw [Nat.log2_eq_iff hne, hu, Nat.pow_add]
      constructor
      · exact Nat.mul_le_mul_right _ hn
      · rw [show 52 + x.exponent + 1 = 53 + x.exponent by omega, Nat.pow_add]
        exact Nat.mul_lt_mul_of_pos_right hs (Nat.pow_pos (by omega))
    omega

/-- A quotient that is a binary number exactly is not rounded. -/
theorem ofRatio?_exact (x : Binary64) {num den : Nat} (hd : 0 < den)
    (h : num * Nat.pow 2 1074 = x.units * den) : ofRatio? x.negative num den = some x := by
  unfold ofRatio?
  generalize Nat.pow 2 1074 = unit at h ⊢
  have hround : roundHalfEven (x.units * den) (den * Nat.pow 2 x.exponent) = x.significand := by
    have hp : 0 < den * Nat.pow 2 x.exponent := Nat.mul_pos hd (Nat.pow_pos (by omega))
    rw [← roundHalfEven_mul_left x.significand hp]
    congr 1
    rw [units, Nat.mul_assoc, Nat.mul_comm den]
  have hs : x.significand ≠ Nat.pow 2 53 := Nat.ne_of_lt x.inFormat.1
  simp only [h, Nat.mul_div_cancel _ hd, log2_units, hround, if_neg hs, ofParts?_eq]

/-! ## Decimals of equal value -/

theorem Decimal.ratio_pos (d : Decimal) : 0 < d.ratio.2 :=
  Nat.pow_pos (by omega)

/-- Digits moved over the point leave the quotient as it is. -/
theorem ratio_scale (m k : Nat) (e : Int) :
    (Decimal.ratio ⟨m * 10 ^ k, e - k⟩).1 * (Decimal.ratio ⟨m, e⟩).2
      = (Decimal.ratio ⟨m, e⟩).1 * (Decimal.ratio ⟨m * 10 ^ k, e - k⟩).2 := by
  show m * 10 ^ k * 10 ^ (e - k).toNat * 10 ^ (-e).toNat
    = m * 10 ^ e.toNat * 10 ^ (-(e - k)).toNat
  rw [Nat.mul_assoc, Nat.mul_assoc, Nat.mul_assoc, ← Nat.pow_add, ← Nat.pow_add, ← Nat.pow_add]
  congr 2
  omega

theorem ofDecimal?_scale (negative : Bool) (m k : Nat) (e : Int) :
    ofDecimal? negative ⟨m * 10 ^ k, e - k⟩ = ofDecimal? negative ⟨m, e⟩ := by
  unfold ofDecimal?
  by_cases hm : m = 0
  · simp [hm]
  · have hpos : 0 < 10 ^ k := Nat.pow_pos (by omega)
    have hne : m * 10 ^ k ≠ 0 := Nat.mul_ne_zero hm (by omega)
    have hsize : ((digitsOf (m * 10 ^ k)).length : Int) + (e - k) = (digitsOf m).length + e := by
      rw [length_digitsOf_mul_pow (by omega)]
      omega
    simp only [hsize, hm, hne, false_or,
      ofRatio?_congr negative (Decimal.ratio_pos _) (Decimal.ratio_pos _) (ratio_scale m k e)]

/-! ## The exact decimal of a number -/

/-- The exact decimal is as large as the number. -/
theorem ratio_exact (x : Binary64) :
    (exact x).ratio.1 * Nat.pow 2 1074 = x.units * (exact x).ratio.2 := by
  have hint : (1074 : Int) = (1074 : Nat) := rfl
  have hu : x.units = x.significand * 2 ^ x.exponent := rfl
  rw [exact, hu, hint]
  generalize 1074 = n
  by_cases h : n ≤ x.exponent
  · rw [if_pos h]
    show x.significand * 2 ^ (x.exponent - n) * 10 ^ (0 : Int).toNat * 2 ^ n
      = x.significand * 2 ^ x.exponent * 10 ^ (-0 : Int).toNat
    generalize hk : x.exponent - n = k
    rw [show x.exponent = k + n by omega, Nat.pow_add]
    simp only [Int.toNat_zero, Int.neg_zero, Nat.pow_zero, Nat.mul_one]
    rw [Nat.mul_assoc]
  · rw [if_neg h]
    show x.significand * 5 ^ (n - x.exponent) * 10 ^ ((x.exponent : Int) - n).toNat * 2 ^ n
      = x.significand * 2 ^ x.exponent * 10 ^ (-((x.exponent : Int) - n)).toNat
    generalize hk : n - x.exponent = k
    have hten : 10 ^ k = 5 ^ k * 2 ^ k := by rw [← Nat.mul_pow]
    rw [show ((x.exponent : Int) - n).toNat = 0 by omega,
      show (-((x.exponent : Int) - n)).toNat = k by omega,
      show n = x.exponent + k by omega, Nat.pow_add, hten]
    ring

/-- Zero is the only number without digits. -/
theorem eq_zero_of_significand {x : Binary64} (h : x.significand = 0) : x = zero x.negative := by
  obtain ⟨negative, significand, exponent, inFormat, normalized⟩ := x
  obtain rfl : significand = 0 := h
  obtain rfl : exponent = 0 := by
    rcases normalized with h0 | hn
    · exact h0
    · exact absurd hn (by decide)
  rfl

/-- The exact decimal of a number is neither too small nor too large to be looked at. -/
theorem size_exact {x : Binary64} (h : x.significand ≠ 0) :
    -330 ≤ ((digitsOf (exact x).digits).length + (exact x).exponent : Int)
      ∧ ((digitsOf (exact x).digits).length + (exact x).exponent : Int) ≤ 310 := by
  have hs : x.significand < 2 ^ 53 := x.inFormat.1
  have he : x.exponent ≤ 2045 := x.inFormat.2
  by_cases hx : 1074 ≤ x.exponent
  · have hexact : exact x = ⟨x.significand * 2 ^ (x.exponent - 1074), 0⟩ := if_pos hx
    rw [hexact]
    have hup : x.significand * 2 ^ (x.exponent - 1074) < 10 ^ 310 := by
      calc x.significand * 2 ^ (x.exponent - 1074)
          < 2 ^ 53 * 2 ^ (x.exponent - 1074) := Nat.mul_lt_mul_of_pos_right hs (Nat.pow_pos (by omega))
        _ = 2 ^ (53 + (x.exponent - 1074)) := (Nat.pow_add ..).symm
        _ ≤ 2 ^ 1024 := Nat.pow_le_pow_right (by omega) (by omega)
        _ < 10 ^ 310 := by decide +kernel
    have := (length_digitsOf_le_iff (by omega)).2 hup
    simp only
    omega
  · have hexact : exact x = ⟨x.significand * 5 ^ (1074 - x.exponent), (x.exponent : Int) - 1074⟩ :=
      if_neg hx
    rw [hexact]
    obtain ⟨k, hk⟩ : ∃ k, k = 1074 - x.exponent := ⟨_, rfl⟩
    rw [← hk]
    have hfive : 0 < 5 ^ k := Nat.pow_pos (by omega)
    have hten : 10 ^ k = 5 ^ k * 2 ^ k := by rw [← Nat.mul_pow]
    have hlow : k < (digitsOf (x.significand * 5 ^ k)).length + 331 := by
      by_contra hcon
      have h1 : 5 ^ k < 10 ^ (digitsOf (x.significand * 5 ^ k)).length :=
        Nat.lt_of_le_of_lt (Nat.le_mul_of_pos_left _ (by omega)) (lt_pow_length _)
      have h2 : 5 ^ k * 10 ^ 331 < 5 ^ k * 2 ^ k := by
        calc 5 ^ k * 10 ^ 331
            < 10 ^ (digitsOf (x.significand * 5 ^ k)).length * 10 ^ 331 :=
              Nat.mul_lt_mul_of_pos_right h1 (pow_pos (by omega) 331)
          _ = 10 ^ ((digitsOf (x.significand * 5 ^ k)).length + 331) := (pow_add ..).symm
          _ ≤ 10 ^ k := Nat.pow_le_pow_right (by omega) (by omega)
          _ = 5 ^ k * 2 ^ k := hten
      have h3 : 10 ^ 331 < 2 ^ k := Nat.lt_of_mul_lt_mul_left h2
      have h4 : 2 ^ k ≤ 2 ^ 1074 := pow_le_pow_right₀ (by omega) (by omega)
      exact absurd (Nat.lt_of_lt_of_le h3 h4) (by decide +kernel)
    have hup : x.significand * 5 ^ k < 10 ^ (16 + k) := by
      calc x.significand * 5 ^ k
          < 10 ^ 16 * 5 ^ k := Nat.mul_lt_mul_of_pos_right (by omega) hfive
        _ ≤ 10 ^ 16 * 10 ^ k := Nat.mul_le_mul_left _ (Nat.pow_le_pow_left (by omega) k)
        _ = 10 ^ (16 + k) := (Nat.pow_add ..).symm
    have := (length_digitsOf_le_iff (by omega)).2 hup
    simp only
    omega

/-- A number is read back from its exact decimal. -/
theorem ofDecimal?_exact (x : Binary64) : ofDecimal? x.negative (exact x) = some x := by
  unfold ofDecimal?
  by_cases h : x.significand = 0
  · have hd : (exact x).digits = 0 := by
      unfold exact
      split <;> simp [h]
    simp only [hd, true_or, if_true]
    rw [← eq_zero_of_significand h]
  · have hd : (exact x).digits ≠ 0 := by
      unfold exact
      have h2 := Nat.pow_pos (a := 2) (n := x.exponent - 1074) (by omega)
      have h5 := Nat.pow_pos (a := 5) (n := 1074 - x.exponent) (by omega)
      split
      · exact Nat.mul_ne_zero h (Nat.ne_of_gt h2)
      · exact Nat.mul_ne_zero h (Nat.ne_of_gt h5)
    obtain ⟨hlow, hup⟩ := size_exact h
    simp only [hd, false_or]
    rw [if_neg (by omega), if_neg (by omega)]
    exact ofRatio?_exact x (Decimal.ratio_pos _) (ratio_exact x)

/-! ## The shortest decimal of a number -/

theorem ofDecimal?_dropZeros (negative : Bool) (fuel : Nat) (d : Decimal) :
    ofDecimal? negative (d.dropZeros fuel) = ofDecimal? negative d := by
  induction fuel generalizing d with
  | zero => rfl
  | succ fuel ih =>
    unfold Decimal.dropZeros
    split
    · next h =>
      rw [ih]
      have hd : d.digits = d.digits / 10 * 10 ^ 1 := by omega
      have hscale := ofDecimal?_scale negative (d.digits / 10) 1 (d.exponent + 1)
      rw [← hscale, ← hd]
      congr 2
      omega
    · rfl

/-- A number is read back from its shortest decimal. -/
theorem ofDecimal?_shortest (x : Binary64) : ofDecimal? x.negative (shortest x) = some x := by
  unfold shortest
  by_cases h : x.significand = 0
  · rw [if_pos h]
    simp only [ofDecimal?, true_or, if_true]
    rw [← eq_zero_of_significand h]
  · rw [if_neg h]
    simp only [ofDecimal?_dropZeros]
    cases hf : (candidates x).find? fun d => ofDecimal? x.negative d = some x with
    | none => exact ofDecimal?_exact x
    | some d => simpa using List.find?_some hf

end Binary64

end TagQuery.Number
