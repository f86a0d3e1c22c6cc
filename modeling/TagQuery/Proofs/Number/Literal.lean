import TagQuery.Number.Literal
import TagQuery.Proofs.Number.Rounding
import TagQuery.Proofs.Text.Words

/-!
# Printed numbers as literals

A literal is in the form of a number (`InForm`) if it has digits where a number must have some and
nothing is glued to it.  Such literals are found again in front of any text that no word goes on with.
A number prints as a literal (`Number.literal`) that is even `Regular`, without a zero too many at its
start and with digits behind its point, and that stands for the number:

    l.InForm → scan (l.chars ++ rest) = (l, rest)               (scan_chars)
    n.literal.chars = n.chars                                   (chars_literal)
    n.literal.value? = some n                                   (value?_literal)
-/

namespace TagQuery

/-! ## Regular literals -/

/-- A row of digits that is not empty. -/
def IsDigits (ds : List Char) : Prop :=
  ds ≠ [] ∧ ∀ c ∈ ds, isDigit c = true

/-- An exponent with a mark, a sign or none, and digits. -/
structure ExponentPart.Regular (e : ExponentPart) : Prop where
  mark : e.mark = 'e' ∨ e.mark = 'E'
  sign : ∀ s ∈ e.sign, s = '+' ∨ s = '-'
  digits : IsDigits e.digits

/-- A literal with digits at its start and behind the mark of its exponent, and nothing glued to it. -/
structure NumberLiteral.InForm (l : NumberLiteral) : Prop where
  whole : IsDigits l.whole
  fraction : ∀ ds ∈ l.fraction, ∀ c ∈ ds, isDigit c = true
  exponent : ∀ e ∈ l.exponent, e.Regular
  glued : l.glued = []

/-- A literal with digits behind its point too, and no zero too many. -/
structure NumberLiteral.Regular (l : NumberLiteral) : Prop where
  whole : IsDigits l.whole
  /-- A zero at the start stands alone. -/
  leading : l.whole.head? = some '0' → l.whole = ['0']
  fraction : ∀ ds ∈ l.fraction, IsDigits ds
  exponent : ∀ e ∈ l.exponent, e.Regular
  glued : l.glued = []

theorem NumberLiteral.Regular.inForm {l : NumberLiteral} (h : l.Regular) : l.InForm where
  whole := h.whole
  fraction ds hds := (h.fraction ds hds).2
  exponent := h.exponent
  glued := h.glued

theorem NumberLiteral.InForm.wellFormed {l : NumberLiteral} (h : l.InForm) : l.wellFormed = true := by
  unfold NumberLiteral.wellFormed
  rw [h.glued]
  cases he : l.exponent with
  | none => rfl
  | some e => simpa using (h.exponent e he).digits.1

theorem isDigits_digitsOf (n : Nat) : IsDigits (Number.digitsOf n) :=
  ⟨Number.digitsOf_ne_nil n, Number.isDigit_digitsOf n⟩

theorem isDigits_zero : IsDigits ['0'] := by
  simp [IsDigits, isDigit]

/-! ## Finding a literal -/

section

open Text

variable {rest : List Char}

namespace IsDigits

variable {ds : List Char}

theorem takeWhile (h : IsDigits ds) (stop : StopsAt isDigit rest) :
    (ds ++ rest).takeWhile isDigit = ds :=
  takeWhile_append_stop h.2 stop

theorem dropWhile (h : IsDigits ds) (stop : StopsAt isDigit rest) :
    (ds ++ rest).dropWhile isDigit = rest :=
  dropWhile_append_stop h.2 stop

/-- What starts with a digit. -/
theorem eq_cons (h : IsDigits ds) : ∃ c cs, ds = c :: cs ∧ isDigit c = true := by
  cases ds with
  | nil => exact absurd rfl h.1
  | cons c cs => exact ⟨c, cs, rfl, h.2 c List.mem_cons_self⟩

end IsDigits

theorem ne_of_isDigit {c d : Char} (h : isDigit c = true) (hd : isDigit d = false) : c ≠ d := by
  rintro rfl
  simp [h] at hd

namespace ExponentPart

theorem scan_chars {e : ExponentPart} (h : e.Regular) (stop : StopsAt continuesWord rest) :
    scan (e.chars ++ rest) = (some e, rest) := by
  obtain ⟨mark, sign, digits⟩ := e
  have hmark : mark = 'e' ∨ mark = 'E' := h.mark
  have hdigits : IsDigits digits := h.digits
  have htake := hdigits.takeWhile stop.isDigit
  have hdrop := hdigits.dropWhile stop.isDigit
  cases sign with
  | some s =>
    have hs : s = '+' ∨ s = '-' := h.sign s rfl
    simp [chars, scan, hmark, hs, htake, hdrop]
  | none =>
    obtain ⟨c, cs, rfl, hc⟩ := hdigits.eq_cons
    have hplus : c ≠ '+' := ne_of_isDigit hc (by decide)
    have hminus : c ≠ '-' := ne_of_isDigit hc (by decide)
    rw [List.cons_append] at htake hdrop
    simp [chars, scan, hmark, hplus, hminus, htake, hdrop]

/-- A text that no word goes on with has no exponent at its start. -/
theorem scan_stop (stop : StopsAt continuesWord rest) : scan rest = (none, rest) := by
  cases rest with
  | nil => rfl
  | cons c cs =>
    have he : c ≠ 'e' := stop.ne (by decide)
    have hE : c ≠ 'E' := stop.ne (by decide)
    simp [scan, he, hE]

end ExponentPart

namespace NumberLiteral

/-- The text of a fraction, or of none. -/
def fractionChars : Option (List Char) → List Char
  | some ds => '.' :: ds
  | none => []

/-- The text of an exponent, or of none. -/
def exponentChars : Option ExponentPart → List Char
  | some e => e.chars
  | none => []

theorem chars_eq (l : NumberLiteral) :
    l.chars = (if l.negative then ['-'] else [])
      ++ (l.whole ++ (fractionChars l.fraction ++ (exponentChars l.exponent ++ l.glued))) := by
  obtain ⟨negative, whole, fraction, exponent, glued⟩ := l
  cases fraction <;> cases exponent <;> simp [chars, fractionChars, exponentChars]

/-- A literal in form is written with digits, signs, a point and the mark of an exponent. -/
theorem InForm.mem_chars {l : NumberLiteral} (h : l.InForm) :
    ∀ c ∈ l.chars, isDigit c = true ∨ c ∈ ['-', '+', '.', 'e', 'E'] := by
  have hdigits {ds : List Char} (hds : ∀ c ∈ ds, isDigit c = true) :
      ∀ c ∈ ds, isDigit c = true ∨ c ∈ ['-', '+', '.', 'e', 'E'] := fun c hc => .inl (hds c hc)
  rw [chars_eq, h.glued]
  simp only [List.forall_mem_append]
  refine ⟨?sign, hdigits h.whole.2, ?fraction, ?exponent, nofun⟩
  case sign =>
    cases l.negative with
    | false => exact nofun
    | true => exact List.forall_mem_singleton.2 (.inr (by decide))
  case fraction =>
    cases hfraction : l.fraction with
    | none => exact nofun
    | some ds => exact List.forall_mem_cons.2 ⟨.inr (by decide), hdigits (h.fraction ds hfraction)⟩
  case exponent =>
    cases hexponent : l.exponent with
    | none => exact nofun
    | some e =>
      obtain ⟨hmark, hsign, hrow⟩ := h.exponent e hexponent
      refine List.forall_mem_cons.2 ⟨?_, List.forall_mem_append.2 ⟨?_, hdigits hrow.2⟩⟩
      · rcases hmark with hmark | hmark <;> rw [hmark] <;> exact .inr (by decide)
      · intro c hc
        rcases hsign c (Option.mem_toList.1 hc) with rfl | rfl <;> exact .inr (by decide)

/-- The exponent of a literal, or nothing, in front of a text that no word goes on with. -/
theorem scan_exponent {e? : Option ExponentPart} (h : ∀ e ∈ e?, e.Regular)
    (stop : StopsAt continuesWord rest) :
    ExponentPart.scan (exponentChars e? ++ rest) = (e?, rest) := by
  cases e? with
  | none => exact ExponentPart.scan_stop stop
  | some e => exact ExponentPart.scan_chars (h e rfl) stop

/-- What a fraction stops at: no digit and no point. -/
abbrev endsDigits (c : Char) : Bool :=
  isDigit c || c == '.'

/-- An exponent starts with no digit and no point, nor does a text that no word goes on with. -/
theorem stopsAt_exponent {e? : Option ExponentPart} (h : ∀ e ∈ e?, e.Regular)
    (stop : StopsAt continuesWord rest) : StopsAt endsDigits (exponentChars e? ++ rest) := by
  cases e? with
  | none =>
    cases rest with
    | nil => exact stopsAt_nil
    | cons d rest =>
      have hpoint : d ≠ '.' := stop.ne (by decide)
      exact stopsAt_cons (by simp [stop.isDigit d rfl, hpoint])
  | some e =>
    apply stopsAt_cons
    rcases (h e rfl).mark with hm | hm <;> rw [hm] <;> decide

/-- A fraction of a literal, or nothing, in front of what is no digit and no point. -/
theorem scan_fraction {ds? : Option (List Char)} (h : ∀ ds ∈ ds?, ∀ c ∈ ds, isDigit c = true)
    (stop : StopsAt endsDigits rest) :
    scanFraction (fractionChars ds? ++ rest) = (ds?, rest) := by
  cases ds? with
  | none =>
    cases rest with
    | nil => rfl
    | cons c cs =>
      have hc : c ≠ '.' := by simpa using (Bool.or_eq_false_iff.1 (stop c rfl)).2
      simp [fractionChars, scanFraction, hc]
  | some ds =>
    have hds := h ds rfl
    have hstop : StopsAt isDigit rest := fun c hc => (Bool.or_eq_false_iff.1 (stop c hc)).1
    simp [fractionChars, scanFraction, takeWhile_append_stop hds hstop, dropWhile_append_stop hds hstop]

theorem stopsAt_fraction (ds? : Option (List Char)) (stop : StopsAt endsDigits rest) :
    StopsAt isDigit (fractionChars ds? ++ rest) := by
  cases ds? with
  | none => exact fun c hc => (Bool.or_eq_false_iff.1 (stop c hc)).1
  | some ds => exact stopsAt_cons (by decide)

/-- A sign, or none, in front of digits. -/
theorem scan_sign {negative : Bool} {ds : List Char} (h : IsDigits ds) :
    scanSign ((if negative then ['-'] else []) ++ (ds ++ rest)) = (negative, ds ++ rest) := by
  cases negative with
  | true => rfl
  | false =>
    obtain ⟨c, cs, rfl, hc⟩ := h.eq_cons
    have hminus : c ≠ '-' := ne_of_isDigit hc (by decide)
    simp [scanSign, hminus]

/-- A literal in the form of a number is found in front of any text that no word goes on with. -/
theorem scan_chars {l : NumberLiteral} (h : l.InForm) (stop : StopsAt continuesWord rest) :
    scan (l.chars ++ rest) = (l, rest) := by
  obtain ⟨negative, whole, fraction, exponent, glued⟩ := l
  obtain ⟨hwhole, hfraction, hexponent, rfl⟩ := h
  rw [chars_eq]
  simp only [List.append_nil, List.append_assoc]
  have htail := scan_exponent hexponent stop
  have hstop := stopsAt_exponent hexponent stop
  generalize exponentChars exponent ++ rest = tail at htail hstop ⊢
  have hfrac := scan_fraction hfraction hstop
  have hwstop := stopsAt_fraction fraction hstop
  generalize fractionChars fraction ++ tail = middle at hfrac hwstop ⊢
  simp only [scan, scan_sign hwhole, hwhole.takeWhile hwstop, hwhole.dropWhile hwstop, hfrac, htail,
    stop.takeWhile_eq_nil, stop.dropWhile_eq]

end NumberLiteral

end

/-! ## The literal of a number -/

namespace Number

namespace Binary64

/-- The literal of digits that are laid out with a point. -/
def positionalLiteral (negative : Bool) (ds : List Char) (place : Int) : NumberLiteral :=
  if place < 0 then
    ⟨negative, ['0'], some (List.replicate (-place - 1).toNat '0' ++ ds), none, []⟩
  else
    let width := place.toNat + 1
    let fraction := ds.drop width
    ⟨negative, ds.take width ++ List.replicate (width - ds.length) '0',
      some (if fraction = [] then ['0'] else fraction), none, []⟩

/-- The literal of digits that are laid out with an exponent. -/
def scientificLiteral (negative : Bool) (mark : Char) (ds : List Char) (place : Int) :
    NumberLiteral :=
  let fraction := ds.drop 1
  ⟨negative, ds.take 1, if fraction = [] then none else some fraction,
    some ⟨mark, some (if place < 0 then '-' else '+'), digitsOf place.natAbs⟩, []⟩

/-- The literal that a binary number prints as. -/
def literal (x : Binary64) : NumberLiteral :=
  let d := shortest x
  let ds := digitsOf d.digits
  let place := d.exponent + ds.length - 1
  if layout.lowest ≤ place ∧ place ≤ layout.highest then positionalLiteral x.negative ds place
  else scientificLiteral x.negative layout.mark ds place

/-! ### Texts -/

section

variable (negative : Bool) (mark : Char) (ds : List Char) (place : Int)

theorem chars_positionalLiteral :
    (positionalLiteral negative ds place).chars
      = (if negative then ['-'] else []) ++ positional ds place := by
  unfold positionalLiteral positional
  split <;> simp [NumberLiteral.chars]

theorem chars_scientificLiteral :
    (scientificLiteral negative mark ds place).chars
      = (if negative then ['-'] else []) ++ scientific mark ds place := by
  unfold scientificLiteral scientific
  generalize ds.drop 1 = fraction
  by_cases h : fraction = [] <;> simp [NumberLiteral.chars, ExponentPart.chars, h]

theorem chars_literal (x : Binary64) : x.literal.chars = x.text := by
  unfold literal text
  simp only
  split
  · rw [chars_positionalLiteral]
    cases x.negative <;> rfl
  · rw [chars_scientificLiteral]
    cases x.negative <;> rfl

end

/-! ### Regularity -/

section

variable {negative : Bool} {mark : Char} {ds : List Char} {place : Int}

theorem regular_positionalLiteral (h : IsDigits ds)
    (leading : ds.head? = some '0' → ds = ['0'] ∧ place = 0) :
    (positionalLiteral negative ds place).Regular := by
  unfold positionalLiteral
  split
  · refine ⟨isDigits_zero, fun _ => rfl, ?_, by simp, rfl⟩
    rintro fraction ⟨⟩
    refine ⟨by simp [h.1], fun c hc => ?_⟩
    rcases List.mem_append.1 hc with hc | hc
    · rw [List.eq_of_mem_replicate hc]
      decide
    · exact h.2 c hc
  · refine ⟨⟨by simp [h.1], fun c hc => ?_⟩, fun hz => ?_, ?_, by simp, rfl⟩
    · rcases List.mem_append.1 hc with hc | hc
      · exact h.2 c (List.mem_of_mem_take hc)
      · rw [List.eq_of_mem_replicate hc]
        decide
    · obtain ⟨c, cs, rfl, -⟩ := h.eq_cons
      obtain ⟨hds, rfl⟩ := leading (by simpa using hz)
      simp [hds]
    · rintro fraction ⟨⟩
      split
      · exact isDigits_zero
      · next hne => exact ⟨hne, fun c hc => h.2 c (List.mem_of_mem_drop hc)⟩

theorem regular_scientificLiteral (h : IsDigits ds) (hmark : mark = 'e' ∨ mark = 'E') :
    (scientificLiteral negative mark ds place).Regular := by
  obtain ⟨c, cs, rfl, hc⟩ := h.eq_cons
  unfold scientificLiteral
  refine ⟨⟨by simp, by simpa using hc⟩, by simp, ?_, ?_, rfl⟩
  · intro fraction hf
    by_cases hcs : cs = []
    · simp [hcs] at hf
    · obtain rfl : cs = fraction := by simpa [hcs] using hf
      exact ⟨hcs, fun d hd => h.2 d (List.mem_cons_of_mem c hd)⟩
  · rintro e ⟨⟩
    refine ⟨hmark, ?_, isDigits_digitsOf _⟩
    rintro s ⟨⟩
    split <;> simp

/-- Only zero has a zero as its first digit. -/
theorem shortest_leading (x : Binary64) (h : (digitsOf (shortest x).digits).head? = some '0') :
    shortest x = ⟨0, 0⟩ := by
  by_cases hs : x.significand = 0
  · simp [shortest, hs]
  · exfalso
    apply head_digitsOf (Nat.pos_of_ne_zero fun hd => hs ?_) h
    have hx := ofDecimal?_shortest x
    simp only [ofDecimal?, hd, true_or, if_true, Option.some.injEq] at hx
    rw [← hx]
    rfl

theorem regular_literal (x : Binary64) : x.literal.Regular := by
  unfold literal
  simp only
  split
  · apply regular_positionalLiteral (isDigits_digitsOf _)
    intro h
    rw [shortest_leading x h]
    exact ⟨rfl, rfl⟩
  · exact regular_scientificLiteral (isDigits_digitsOf _) (.inl rfl)

end

/-! ### Values -/

section

variable (negative : Bool) (mark : Char) (ds : List Char) (exponent : Int)

/-- Laid out with a point, the digits are those of the decimal, with zeros behind them. -/
theorem decimal_positionalLiteral :
    ∃ k : Nat, (positionalLiteral negative ds (exponent + ds.length - 1)).decimal
      = ⟨valueOfDigits ds * 10 ^ k, exponent - k⟩ := by
  generalize h : exponent + ds.length - 1 = place
  unfold positionalLiteral
  split
  · next hneg =>
    refine ⟨0, ?_⟩
    have hval : valueOfDigits ('0' :: (List.replicate (-place - 1).toNat '0' ++ ds))
        = valueOfDigits ds := valueOfDigits_zeros_append ((-place - 1).toNat + 1) ds
    simp only [NumberLiteral.decimal, Option.getD_some, List.cons_append, List.nil_append, hval,
      Option.map_none, Option.getD_none, List.length_append, List.length_replicate, Nat.pow_zero,
      Nat.mul_one]
    congr 1
    omega
  · next hpos =>
    by_cases hlen : ds.length ≤ place.toNat + 1
    · refine ⟨place.toNat + 1 - ds.length + 1, ?_⟩
      have hval : valueOfDigits (ds ++ (List.replicate (place.toNat + 1 - ds.length) '0' ++ ['0']))
          = valueOfDigits ds * 10 ^ (place.toNat + 1 - ds.length + 1) := by
        rw [← List.replicate_succ', valueOfDigits_append_zeros]
      simp [NumberLiteral.decimal, List.take_of_length_le hlen, List.drop_eq_nil_of_le hlen, hval]
      omega
    · refine ⟨0, ?_⟩
      have hdrop : ds.drop (place.toNat + 1) ≠ [] := by simp; omega
      have hzeros : place.toNat + 1 - ds.length = 0 := by omega
      simp [NumberLiteral.decimal, hdrop, hzeros]
      omega

/-- Laid out with an exponent, the digits are those of the decimal. -/
theorem decimal_scientificLiteral (hne : ds ≠ []) :
    (scientificLiteral negative mark ds (exponent + ds.length - 1)).decimal
      = ⟨valueOfDigits ds, exponent⟩ := by
  generalize h : exponent + ds.length - 1 = place
  obtain ⟨c, cs, rfl⟩ := List.exists_cons_of_ne_nil hne
  have hexp : ExponentPart.value
      ⟨mark, some (if place < 0 then '-' else '+'), digitsOf place.natAbs⟩ = place := by
    by_cases hneg : place < 0
    · simp only [ExponentPart.value, hneg, if_true, valueOfDigits_digitsOf]
      omega
    · simp only [ExponentPart.value, hneg, if_false, valueOfDigits_digitsOf]
      simp
      omega
  have hlen : place - cs.length = exponent := by
    rw [← h, List.length_cons]
    omega
  by_cases hcs : cs = []
  · subst hcs
    simpa [scientificLiteral, NumberLiteral.decimal, hexp] using hlen
  · simpa [scientificLiteral, NumberLiteral.decimal, hexp, hcs] using hlen

end

/-- The literal of a binary number is rounded to the number. -/
theorem ofDecimal?_literal (x : Binary64) : ofDecimal? x.negative x.literal.decimal = some x := by
  have hk : ∃ k : Nat, x.literal.decimal
      = ⟨(shortest x).digits * 10 ^ k, (shortest x).exponent - k⟩ := by
    unfold literal
    simp only
    split
    · have h := decimal_positionalLiteral x.negative (digitsOf (shortest x).digits) (shortest x).exponent
      rwa [valueOfDigits_digitsOf] at h
    · refine ⟨0, ?_⟩
      rw [decimal_scientificLiteral _ _ _ _ (digitsOf_ne_nil _)]
      simp
  obtain ⟨k, hk⟩ := hk
  rw [hk, ofDecimal?_scale]
  exact ofDecimal?_shortest x

theorem negative_literal (x : Binary64) : x.literal.negative = x.negative := by
  simp only [literal, positionalLiteral, scientificLiteral]
  split
  · split <;> rfl
  · rfl

/-- A binary number is not printed as a whole one. -/
theorem whole?_literal (x : Binary64) : x.literal.whole? = none := by
  simp only [literal, positionalLiteral, scientificLiteral]
  split
  · split <;> rfl
  · simp [NumberLiteral.whole?]

end Binary64

/-- The literal that a number prints as. -/
def literal : Number → NumberLiteral
  | .whole value _ => ⟨decide (value < 0), digitsOf value.natAbs, none, none, []⟩
  | .binary value => value.literal

theorem chars_literal (n : Number) : n.literal.chars = n.chars := by
  cases n with
  | whole value _ =>
    simp only [literal, NumberLiteral.chars, chars, wholeText]
    by_cases h : value < 0 <;> simp [h]
  | binary value => exact Binary64.chars_literal value

theorem regular_literal (n : Number) : n.literal.Regular := by
  cases n with
  | whole value _ =>
    refine ⟨isDigits_digitsOf _, fun h => ?_, by simp [literal], by simp [literal], rfl⟩
    simp only [literal] at h ⊢
    by_cases hz : value.natAbs = 0
    · rw [hz]
      rfl
    · exact absurd h (head_digitsOf (Nat.pos_of_ne_zero hz))
  | binary value => exact Binary64.regular_literal value

/-- A number is written with digits, signs, a point and the mark of an exponent. -/
theorem mem_chars (n : Number) :
    ∀ c ∈ n.chars, isDigit c = true ∨ c ∈ ['-', '+', '.', 'e', 'E'] := by
  rw [← n.chars_literal]
  exact n.regular_literal.inForm.mem_chars

/-- The literal of a whole number is read as that number. -/
theorem whole?_literal (value : Int) (h : -9223372036854775808 ≤ value ∧ value ≤ 18446744073709551615) :
    (literal (.whole value h)).whole? = some (.whole value h) := by
  have hval : (if value < 0 then -(value.natAbs : Int) else value.natAbs) = value := by
    split <;> omega
  simp only [literal, NumberLiteral.whole?, valueOfDigits_digitsOf, decide_eq_true_eq, hval]
  simp [ofInt?, h]

/-- A number is read back from its literal. -/
theorem value?_literal (n : Number) : n.literal.value? = some n := by
  have hformed := (regular_literal n).inForm.wellFormed
  simp only [NumberLiteral.value?, hformed, if_true]
  cases n with
  | whole value h => rw [whole?_literal]; rfl
  | binary x =>
    show x.literal.whole?.orElse _ = _
    rw [Binary64.whole?_literal]
    simp [ofDecimal?, literal, Binary64.negative_literal, Binary64.ofDecimal?_literal]

end Number

end TagQuery
