import Mathlib.Computability.Language
import TagQuery.Proofs.Filter.Scanning
import TagQuery.Proofs.Number.Nearest

/-!
# Numerals

The texts that are numbers, as a language, and the longer texts that are taken for one where they stand in a
filter: behind the mark of an exponent there may be no digit, and all the characters of a word that follow
belong to it.

    form   = -?[0-9]+(\.[0-9]*)?([eE][+-]?[0-9]+)?
    extent = -?[0-9]+(\.[0-9]*)?([eE][+-]?[0-9]*)?  and then the characters of a word

Scanning takes the longest beginning of a text that is in `extent`, and the literal that it finds has
the form of a number just if its text is in `form`:

    startsNumber cs = true → IsLongest extent cs (scan cs).1.chars               (isLongest_scan)
    (scan cs).1.chars ∈ form ↔ (scan cs).1.InForm                                (mem_form_scan_iff)

What a text in that form stands for (`Denotes`) is said by its parts: the whole number that is written,
or the nearest binary one.  The literal is read as just that:

    startsNumber cs = true →
      ((scan cs).1.value? = some n ↔ Denotes (scan cs).1.chars n)                (value?_scan_iff)
    (∃ n, Denotes cs n) ↔ cs ∈ form ∧ ∀ q, HasMagnitude cs q → q < beyond        (exists_denotes_text_iff)
-/

namespace TagQuery.Numeral

open Computability Text

/-! ## Languages -/

/-- One character of a class. -/
def one (p : Char → Bool) : Language Char :=
  {cs | ∃ c, cs = [c] ∧ p c = true}

def digit : Language Char :=
  one isDigit

/-- `-?[0-9]+(\.[0-9]*)?` -/
def decimal : Language Char :=
  (1 + one (· == '-')) * (digit * digit∗) * (1 + one (· == '.') * digit∗)

/-- `([eE][+-]?…)?`, with the digits that may stand there. -/
def exponent (digits : Language Char) : Language Char :=
  1 + one (fun c => c == 'e' || c == 'E') * (1 + one fun c => c == '+' || c == '-') * digits

/-- The texts that are numbers. -/
def form : Language Char :=
  decimal * exponent (digit * digit∗)

/-- The texts that are taken for numbers. -/
def extent : Language Char :=
  decimal * exponent digit∗ * (one continuesWord)∗

/-- The longest beginning of a text that is in a language. -/
structure IsLongest (L : Language Char) (text front : List Char) : Prop where
  mem : front ∈ L
  isPrefix : front <+: text
  longest : ∀ other ∈ L, other <+: text → other.length ≤ front.length

section

variable {p : Char → Bool} {cs : List Char} {L : Language Char}

theorem mem_one_iff : cs ∈ one p ↔ ∃ c, cs = [c] ∧ p c = true := Iff.rfl

theorem mem_star_one_iff : cs ∈ (one p)∗ ↔ ∀ c ∈ cs, p c = true := by
  rw [Language.mem_kstar]
  constructor
  · rintro ⟨rows, rfl, hrows⟩ c hc
    obtain ⟨row, hrow, hcrow⟩ := List.mem_flatten.1 hc
    obtain ⟨d, rfl, hd⟩ := hrows row hrow
    rwa [List.mem_singleton.1 hcrow]
  · intro h
    refine ⟨cs.map ([·]), by rw [← List.flatMap_def, List.flatMap_singleton'], fun row hrow => ?_⟩
    obtain ⟨c, hc, rfl⟩ := List.mem_map.1 hrow
    exact ⟨c, rfl, h c hc⟩

theorem mem_digits_iff : cs ∈ digit * digit∗ ↔ IsDigits cs := by
  rw [Language.mem_mul]
  constructor
  · rintro ⟨_, ⟨c, rfl, hc⟩, ds, hds, rfl⟩
    exact ⟨by simp, List.forall_mem_cons.2 ⟨hc, mem_star_one_iff.1 hds⟩⟩
  · rintro ⟨hne, hcs⟩
    obtain ⟨c, ds, rfl⟩ := List.exists_cons_of_ne_nil hne
    rw [List.forall_mem_cons] at hcs
    exact ⟨[c], ⟨c, rfl, hcs.1⟩, ds, mem_star_one_iff.2 hcs.2, rfl⟩

/-- What may be left out. -/
theorem mem_optional_iff : cs ∈ 1 + L ↔ cs = [] ∨ cs ∈ L := by
  rw [Language.mem_add, Language.mem_one]

end

/-! ## The parts of a text -/

open NumberLiteral

/-- An exponent with a mark and a sign or none. -/
structure Marked (e : ExponentPart) : Prop where
  mark : e.mark = 'e' ∨ e.mark = 'E'
  sign : ∀ s ∈ e.sign, s = '+' ∨ s = '-'

/-- A literal with digits at its start, and behind it anything that is taken for a part of it. -/
structure Taken (l : NumberLiteral) : Prop where
  whole : IsDigits l.whole
  fraction : ∀ ds ∈ l.fraction, ∀ c ∈ ds, isDigit c = true
  marked : ∀ e ∈ l.exponent, Marked e
  digits : ∀ e ∈ l.exponent, ∀ c ∈ e.digits, isDigit c = true
  glued : ∀ c ∈ l.glued, continuesWord c = true

section

variable {cs : List Char} {L : Language Char} {l : NumberLiteral}

theorem mem_minus_iff :
    cs ∈ 1 + one (· == '-') ↔ ∃ negative : Bool, cs = if negative then ['-'] else [] := by
  rw [mem_optional_iff, mem_one_iff]
  constructor
  · rintro (rfl | ⟨c, rfl, hc⟩)
    · exact ⟨false, rfl⟩
    · exact ⟨true, by simpa using hc⟩
  · rintro ⟨_ | _, rfl⟩
    · exact .inl rfl
    · exact .inr ⟨'-', rfl, rfl⟩

theorem mem_fraction_iff :
    cs ∈ 1 + one (· == '.') * digit∗ ↔
      ∃ ds? : Option (List Char), (∀ ds ∈ ds?, ∀ c ∈ ds, isDigit c = true) ∧ cs = fractionChars ds? := by
  rw [mem_optional_iff, Language.mem_mul]
  constructor
  · rintro (rfl | ⟨_, ⟨c, rfl, hc⟩, ds, hds, rfl⟩)
    · exact ⟨none, by simp, rfl⟩
    · obtain rfl : c = '.' := by simpa using hc
      exact ⟨some ds, by simpa using mem_star_one_iff.1 hds, rfl⟩
  · rintro ⟨none | ds, hds, rfl⟩
    · exact .inl rfl
    · exact .inr ⟨['.'], ⟨'.', rfl, rfl⟩, ds, mem_star_one_iff.2 (hds ds rfl), rfl⟩

theorem mem_decimal_iff :
    cs ∈ decimal ↔ ∃ (negative : Bool) (whole : List Char) (fraction : Option (List Char)),
      IsDigits whole ∧ (∀ ds ∈ fraction, ∀ c ∈ ds, isDigit c = true)
        ∧ cs = (if negative then ['-'] else []) ++ whole ++ fractionChars fraction := by
  constructor
  · intro h
    obtain ⟨_, hfront, _, hback, rfl⟩ := Language.mem_mul.1 h
    obtain ⟨_, hminus, whole, hwhole, rfl⟩ := Language.mem_mul.1 hfront
    obtain ⟨negative, rfl⟩ := mem_minus_iff.1 hminus
    obtain ⟨fraction, hfraction, rfl⟩ := mem_fraction_iff.1 hback
    exact ⟨negative, whole, fraction, mem_digits_iff.1 hwhole, hfraction, rfl⟩
  · rintro ⟨negative, whole, fraction, hwhole, hfraction, rfl⟩
    exact Language.append_mem_mul
      (Language.append_mem_mul (mem_minus_iff.2 ⟨negative, rfl⟩) (mem_digits_iff.2 hwhole))
      (mem_fraction_iff.2 ⟨fraction, hfraction, rfl⟩)

theorem mem_exponent_iff :
    cs ∈ exponent L ↔
      ∃ e? : Option ExponentPart, (∀ e ∈ e?, Marked e ∧ e.digits ∈ L) ∧ cs = exponentChars e? := by
  rw [exponent, mem_optional_iff]
  constructor
  · rintro (rfl | h)
    · exact ⟨none, by simp, rfl⟩
    · obtain ⟨_, hfront, ds, hds, rfl⟩ := Language.mem_mul.1 h
      obtain ⟨_, ⟨mark, rfl, hmark⟩, sign, hsign, rfl⟩ := Language.mem_mul.1 hfront
      replace hmark : mark = 'e' ∨ mark = 'E' := by simpa using hmark
      rcases mem_optional_iff.1 hsign with rfl | ⟨s, rfl, hs⟩
      · refine ⟨some ⟨mark, none, ds⟩, ?_, rfl⟩
        rintro _ ⟨⟩
        exact ⟨⟨hmark, by simp⟩, hds⟩
      · refine ⟨some ⟨mark, some s, ds⟩, ?_, rfl⟩
        rintro _ ⟨⟩
        exact ⟨⟨hmark, by simpa using hs⟩, hds⟩
  · rintro ⟨_ | ⟨mark, sign, ds⟩, h, rfl⟩
    · exact .inl rfl
    · obtain ⟨⟨hmark, hsign⟩, hds⟩ := h _ rfl
      have hfront : [mark] ++ sign.toList
          ∈ one (fun c => c == 'e' || c == 'E') * (1 + one fun c => c == '+' || c == '-') := by
        refine Language.append_mem_mul ⟨mark, rfl, by simpa using hmark⟩ (mem_optional_iff.2 ?_)
        cases sign with
        | none => exact .inl rfl
        | some s => exact .inr ⟨s, rfl, by simpa using hsign s rfl⟩
      exact .inr (Language.append_mem_mul hfront hds)

/-- A literal without characters that are glued to it, its exponent's digits in `L`. -/
theorem mem_unglued_iff :
    cs ∈ decimal * exponent L ↔ ∃ l : NumberLiteral, IsDigits l.whole
      ∧ (∀ ds ∈ l.fraction, ∀ c ∈ ds, isDigit c = true)
      ∧ (∀ e ∈ l.exponent, Marked e ∧ e.digits ∈ L) ∧ l.glued = [] ∧ l.chars = cs := by
  constructor
  · intro h
    obtain ⟨_, hdecimal, _, hexponent, rfl⟩ := Language.mem_mul.1 h
    obtain ⟨negative, whole, fraction, hwhole, hfraction, rfl⟩ := mem_decimal_iff.1 hdecimal
    obtain ⟨e?, he, rfl⟩ := mem_exponent_iff.1 hexponent
    exact ⟨⟨negative, whole, fraction, e?, []⟩, hwhole, hfraction, he, rfl, by simp [chars_eq]⟩
  · rintro ⟨⟨negative, whole, fraction, e?, _⟩, hwhole, hfraction, he, rfl, rfl⟩
    have hchars : NumberLiteral.chars ⟨negative, whole, fraction, e?, []⟩
        = (if negative then ['-'] else []) ++ whole ++ fractionChars fraction ++ exponentChars e? := by
      simp [chars_eq]
    rw [hchars]
    exact Language.append_mem_mul (mem_decimal_iff.2 ⟨negative, whole, fraction, hwhole, hfraction, rfl⟩)
      (mem_exponent_iff.2 ⟨e?, he, rfl⟩)

/-- The texts that are numbers are those of the literals in the form of a number. -/
theorem mem_form_iff : cs ∈ form ↔ ∃ l : NumberLiteral, l.InForm ∧ l.chars = cs := by
  rw [form, mem_unglued_iff]
  constructor
  · rintro ⟨l, hwhole, hfraction, he, hglued, rfl⟩
    refine ⟨l, ⟨hwhole, hfraction, fun e hmem => ?_, hglued⟩, rfl⟩
    obtain ⟨hmarked, hdigits⟩ := he e hmem
    exact ⟨hmarked.mark, hmarked.sign, mem_digits_iff.1 hdigits⟩
  · rintro ⟨l, ⟨hwhole, hfraction, he, hglued⟩, rfl⟩
    refine ⟨l, hwhole, hfraction, fun e hmem => ?_, hglued, rfl⟩
    obtain ⟨hmark, hsign, hdigits⟩ := he e hmem
    exact ⟨⟨hmark, hsign⟩, mem_digits_iff.2 hdigits⟩

/-- The texts that are taken for numbers are those of the literals that are. -/
theorem mem_extent_iff : cs ∈ extent ↔ ∃ l : NumberLiteral, Taken l ∧ l.chars = cs := by
  have hchars : ∀ (l : NumberLiteral) (glued : List Char), l.glued = [] →
      NumberLiteral.chars { l with glued } = l.chars ++ glued := by
    intro l glued hnil
    simp [chars_eq, hnil]
  constructor
  · intro h
    obtain ⟨_, hfront, glued, hglued, rfl⟩ := Language.mem_mul.1 h
    obtain ⟨l, hwhole, hfraction, he, hnil, rfl⟩ := mem_unglued_iff.1 hfront
    exact ⟨{ l with glued }, ⟨hwhole, hfraction, fun e hmem => (he e hmem).1,
      fun e hmem => mem_star_one_iff.1 (he e hmem).2, mem_star_one_iff.1 hglued⟩, hchars l glued hnil⟩
  · rintro ⟨l, ⟨hwhole, hfraction, hmarked, hdigits, hglued⟩, rfl⟩
    have heq : l.chars = NumberLiteral.chars { l with glued := [] } ++ l.glued :=
      hchars { l with glued := [] } l.glued rfl
    rw [heq]
    exact Language.append_mem_mul
      (mem_unglued_iff.2 ⟨{ l with glued := [] }, hwhole, hfraction,
        fun e hmem => ⟨hmarked e hmem, mem_star_one_iff.2 (hdigits e hmem)⟩, rfl, rfl⟩)
      (mem_star_one_iff.2 hglued)

end

/-! ## Scanning -/

section

variable {cs rest : List Char} {l : NumberLiteral}

theorem suffix_scanFraction (cs : List Char) : (scanFraction cs).2 <:+ cs :=
  ⟨_, chars_scanFraction cs⟩

theorem suffix_scanExponent (cs : List Char) : (ExponentPart.scan cs).2 <:+ cs :=
  ⟨_, chars_scanExponent cs⟩

/-- What is left of a text behind some of its word characters ends where the word does. -/
theorem dropWhile_suffix_of_suffix {word : List Char} (h : ∀ c ∈ word, continuesWord c = true)
    (suffix : cs <:+ word ++ rest) : cs.dropWhile continuesWord <:+ rest := by
  obtain ⟨front, heq⟩ := suffix
  rcases List.append_eq_append_iff.1 heq with ⟨back, rfl, rfl⟩ | ⟨back, rfl, rfl⟩
  · rw [List.dropWhile_append_of_pos fun c hc => h c (List.mem_append_right _ hc)]
    exact List.dropWhile_suffix _
  · exact (List.dropWhile_suffix _).trans (List.suffix_append _ _)

/-- A fraction that can be longer takes more of the text behind it, but gives none of it back. -/
theorem scanFraction_suffix {ds? : Option (List Char)} (h : ∀ ds ∈ ds?, ∀ c ∈ ds, isDigit c = true) :
    (scanFraction ((fractionChars ds? ++ rest).dropWhile isDigit)).2 <:+ rest := by
  cases ds? with
  | none => exact (suffix_scanFraction _).trans (List.dropWhile_suffix _)
  | some ds =>
    have hds : (scanFraction (('.' :: (ds ++ rest)).dropWhile isDigit)).2 = rest.dropWhile isDigit := by
      rw [List.dropWhile_cons_of_neg (by decide), scanFraction, if_pos rfl,
        List.dropWhile_append_of_pos (h ds rfl)]
    exact hds ▸ List.dropWhile_suffix _

/-- So does an exponent, whose digits it may take for something else. -/
theorem scanExponent_suffix {e : ExponentPart} (h : Marked e) :
    (ExponentPart.scan (e.chars ++ rest)).2 <:+ e.digits ++ rest := by
  obtain ⟨mark, sign, digits⟩ := e
  have hmark : mark = 'e' ∨ mark = 'E' := h.mark
  cases sign with
  | some s =>
    have hs : s = '+' ∨ s = '-' := h.sign s rfl
    simpa [ExponentPart.chars, ExponentPart.scan, hmark, hs] using List.dropWhile_suffix _
  | none =>
    have hchars : ExponentPart.chars ⟨mark, none, digits⟩ ++ rest = mark :: (digits ++ rest) := rfl
    rw [hchars]
    generalize digits ++ rest = text
    cases text with
    | nil => simp [ExponentPart.scan, hmark]
    | cons c cs =>
      by_cases hc : c = '+' ∨ c = '-'
      · rw [ExponentPart.scan, if_pos hmark, if_pos hc]
        exact (List.dropWhile_suffix _).trans (List.suffix_cons c cs)
      · rw [ExponentPart.scan, if_pos hmark, if_neg hc]
        exact List.dropWhile_suffix _

/-- Whatever stands at the start of a text and is taken for a number, scanning leaves no more of the
text than what is behind it. -/
theorem scan_suffix (h : Taken l) : (scan (l.chars ++ rest)).2 <:+ rest := by
  obtain ⟨negative, whole, fraction, exponent, glued⟩ := l
  obtain ⟨hwhole, hfraction, hmarked, hdigits, hglued⟩ := h
  rw [chars_eq]
  simp only [List.append_assoc, scan, scan_sign hwhole, List.dropWhile_append_of_pos hwhole.2]
  cases exponent with
  | none =>
    have hback : (scanFraction ((fractionChars fraction ++ (glued ++ rest)).dropWhile isDigit)).2
        <:+ glued ++ rest := scanFraction_suffix hfraction
    exact dropWhile_suffix_of_suffix hglued ((suffix_scanExponent _).trans hback)
  | some e =>
    have hmark : StopsAt endsDigits (e.chars ++ (glued ++ rest)) := by
      apply stopsAt_cons
      rcases (hmarked e rfl).mark with hm | hm <;> rw [hm] <;> decide
    have hdrop : (fractionChars fraction ++ (e.chars ++ (glued ++ rest))).dropWhile isDigit
        = fractionChars fraction ++ (e.chars ++ (glued ++ rest)) :=
      (stopsAt_fraction fraction hmark).dropWhile_eq
    have hword : ∀ c ∈ e.digits ++ glued, continuesWord c = true := by
      intro c hc
      rcases List.mem_append.1 hc with hc | hc
      · exact (classes_of_isDigit (hdigits e rfl c hc)).1
      · exact hglued c hc
    simp only [exponentChars]
    rw [hdrop, scan_fraction hfraction hmark]
    refine dropWhile_suffix_of_suffix hword ?_
    rw [List.append_assoc]
    exact scanExponent_suffix (hmarked e rfl)

theorem digits_takeWhile (cs : List Char) : ∀ c ∈ cs.takeWhile isDigit, isDigit c = true :=
  List.all_eq_true.1 List.all_takeWhile

theorem marked_scanExponent (cs : List Char) :
    ∀ e ∈ (ExponentPart.scan cs).1, Marked e ∧ ∀ c ∈ e.digits, isDigit c = true := by
  fun_cases ExponentPart.scan cs with
  | case1 => simp
  | case2 c hmark s ds hs =>
    rintro _ ⟨⟩
    exact ⟨⟨hmark, by simpa using hs⟩, digits_takeWhile ds⟩
  | case3 c hmark s ds hs =>
    rintro _ ⟨⟩
    exact ⟨⟨hmark, by simp⟩, digits_takeWhile _⟩
  | case4 c hmark =>
    rintro _ ⟨⟩
    exact ⟨⟨hmark, by simp⟩, by simp⟩
  | case5 => simp

theorem digits_scanFraction (cs : List Char) :
    ∀ ds ∈ (scanFraction cs).1, ∀ c ∈ ds, isDigit c = true := by
  fun_cases scanFraction cs with
  | case1 => simp
  | case2 cs =>
    rintro _ ⟨⟩
    exact digits_takeWhile cs
  | case3 => simp

/-- Behind the sign, a text that starts a number starts with a digit. -/
theorem isDigits_takeWhile_scanSign (h : startsNumber cs = true) :
    IsDigits ((scanSign cs).2.takeWhile isDigit) := by
  refine ⟨?_, digits_takeWhile _⟩
  cases cs with
  | nil => simp [startsNumber] at h
  | cons c cs =>
    by_cases hc : c = '-'
    · cases cs with
      | nil => simp [startsNumber, hc, isDigit] at h
      | cons d cs =>
        have hd : isDigit d = true := by simpa [startsNumber, hc, isDigit] using h
        simp [scanSign, hc, hd]
    · have hd : isDigit c = true := by simpa [startsNumber, hc] using h
      simp [scanSign, hc, hd]

/-- What scanning takes where a number starts is taken for one. -/
theorem taken_scan (h : startsNumber cs = true) : Taken (scan cs).1 where
  whole := isDigits_takeWhile_scanSign h
  fraction := digits_scanFraction _
  marked e he := (marked_scanExponent _ e he).1
  digits e he := (marked_scanExponent _ e he).2
  glued := List.all_eq_true.1 List.all_takeWhile

/-- Scanning takes the longest beginning that is taken for a number. -/
theorem isLongest_scan (h : startsNumber cs = true) : IsLongest extent cs (scan cs).1.chars where
  mem := mem_extent_iff.2 ⟨_, taken_scan h, rfl⟩
  isPrefix := ⟨_, chars_scan cs⟩
  longest := by
    rintro _ hother ⟨rest, rfl⟩
    obtain ⟨l, hl, rfl⟩ := mem_extent_iff.1 hother
    have hsuffix : (scan (l.chars ++ rest)).2 <:+ rest := scan_suffix hl
    have hrest := hsuffix.length_le
    have hlength := congrArg List.length (chars_scan (l.chars ++ rest))
    simp only [List.length_append] at hlength
    omega

/-- There is only one literal in the form of a number with given characters. -/
theorem chars_inj {k : NumberLiteral} (hk : k.InForm) (hl : l.InForm) (h : k.chars = l.chars) : k = l := by
  have hscan := scan_chars hl stopsAt_nil
  rw [← h, scan_chars hk stopsAt_nil] at hscan
  exact (Prod.mk.inj hscan).1

/-- A literal that was scanned has the form of a number just if its parts say so. -/
theorem inForm_scan_iff (h : startsNumber cs = true) :
    (scan cs).1.InForm ↔ (scan cs).1.wellFormed = true := by
  have htaken := taken_scan h
  generalize (scan cs).1 = l at htaken ⊢
  have hparts : l.wellFormed = true ↔ l.glued = [] ∧ ∀ e ∈ l.exponent, e.digits ≠ [] := by
    unfold wellFormed
    cases l.exponent <;> simp [List.isEmpty_iff]
  rw [hparts]
  constructor
  · intro hform
    exact ⟨hform.glued, fun e he => (hform.exponent e he).digits.1⟩
  · rintro ⟨hglued, hdigits⟩
    exact ⟨htaken.whole, htaken.fraction, fun e he =>
      ⟨(htaken.marked e he).mark, (htaken.marked e he).sign, hdigits e he, htaken.digits e he⟩, hglued⟩

theorem stopsAt_scan (cs : List Char) : StopsAt continuesWord (scan cs).2 :=
  stopsAt_dropWhile _ _

/-- The text of a literal that was scanned is a number just if the literal has the form of one. -/
theorem mem_form_scan_iff : (scan cs).1.chars ∈ form ↔ (scan cs).1.InForm := by
  rw [mem_form_iff]
  constructor
  · rintro ⟨l, hl, hchars⟩
    have hscan := scan_chars hl (stopsAt_scan cs)
    rw [hchars, chars_scan] at hscan
    rwa [hscan]
  · intro hform
    exact ⟨_, hform, rfl⟩

end

/-! ## Values -/

/-- The whole number that the digits of a literal and its sign make up. -/
def signed (l : NumberLiteral) : Int :=
  if l.negative then -(Number.valueOfDigits l.whole : Int) else Number.valueOfDigits l.whole

/-- A literal without fraction and exponent, with a whole number that is in range. -/
structure IsWhole (l : NumberLiteral) : Prop where
  fraction : l.fraction = none
  exponent : l.exponent = none
  inRange : -9223372036854775808 ≤ signed l ∧ signed l ≤ 18446744073709551615

/-- What the text of a number stands for: just its whole number where it is written as one that is in
range, and else the nearest binary number. -/
inductive Denotes : List Char → Number → Prop where
  | whole {l : NumberLiteral} (form : l.InForm) (isWhole : IsWhole l) :
      Denotes l.chars (.whole (signed l) isWhole.inRange)
  | binary {l : NumberLiteral} {x : Number.Binary64} (form : l.InForm) (notWhole : ¬IsWhole l)
      (sign : x.negative = l.negative) (nearest : x.IsNearest l.decimal.value)
      (finite : l.decimal.value < Number.Binary64.beyond) : Denotes l.chars (.binary x)

/-- The whole number that digits stand for, with a `-` or nothing before them. -/
inductive IsInteger : List Char → Int → Prop where
  | mk (negative : Bool) {ds : List Char} (digits : IsDigits ds) :
      IsInteger ((if negative then ['-'] else []) ++ ds)
        (if negative then -(Number.valueOfDigits ds : Int) else Number.valueOfDigits ds)

/-- The magnitude of a number, as it is written. -/
def HasMagnitude (cs : List Char) (q : ℚ) : Prop :=
  ∃ l : NumberLiteral, l.InForm ∧ l.chars = cs ∧ l.decimal.value = q

section

variable {cs : List Char} {l : NumberLiteral} {n : Number}

theorem whole?_eq (l : NumberLiteral) :
    l.whole? = if l.fraction.isNone && l.exponent.isNone then Number.ofInt? (signed l) else none :=
  rfl

theorem whole?_of_isWhole (h : IsWhole l) : l.whole? = some (.whole (signed l) h.inRange) := by
  rw [whole?_eq, h.fraction, h.exponent]
  exact dif_pos h.inRange

theorem whole?_of_not_isWhole (h : ¬IsWhole l) : l.whole? = none := by
  rw [whole?_eq]
  split
  · next hbare =>
    simp only [Bool.and_eq_true, Option.isNone_iff_eq_none] at hbare
    exact dif_neg fun hrange => h ⟨hbare.1, hbare.2, hrange⟩
  · rfl

theorem value?_of_isWhole (form : l.InForm) (h : IsWhole l) :
    l.value? = some (.whole (signed l) h.inRange) := by
  rw [value?, if_pos form.wellFormed, whole?_of_isWhole h]
  rfl

theorem value?_of_not_isWhole (form : l.InForm) (h : ¬IsWhole l) :
    l.value? = Number.ofDecimal? l.negative l.decimal := by
  rw [value?, if_pos form.wellFormed, whole?_of_not_isWhole h]
  rfl

/-- A literal in the form of a number is read as what its text stands for. -/
theorem value?_eq_some_iff (form : l.InForm) : l.value? = some n ↔ Denotes l.chars n := by
  constructor
  · intro h
    by_cases hwhole : IsWhole l
    · rw [value?_of_isWhole form hwhole] at h
      obtain rfl := Option.some.inj h
      exact .whole form hwhole
    · rw [value?_of_not_isWhole form hwhole] at h
      obtain ⟨x, hx, rfl⟩ := Option.map_eq_some_iff.1 h
      obtain ⟨hsign, hnearest, hfinite⟩ := Number.Binary64.ofDecimal?_eq_some_iff.1 hx
      exact .binary form hwhole hsign hnearest hfinite
  · intro h
    generalize htext : l.chars = text at h
    cases h with
    | whole form' hwhole =>
      obtain rfl := chars_inj form form' htext
      exact value?_of_isWhole form hwhole
    | binary form' hwhole hsign hnearest hfinite =>
      obtain rfl := chars_inj form form' htext
      rw [value?_of_not_isWhole form hwhole]
      exact Option.map_eq_some_iff.2
        ⟨_, Number.Binary64.ofDecimal?_eq_some_iff.2 ⟨hsign, hnearest, hfinite⟩, rfl⟩

theorem Denotes.exists_literal (h : Denotes cs n) :
    ∃ l : NumberLiteral, l.InForm ∧ l.chars = cs ∧ l.value? = some n := by
  have hform : ∃ l : NumberLiteral, l.InForm ∧ l.chars = cs := by
    cases h with
    | whole form => exact ⟨_, form, rfl⟩
    | binary form => exact ⟨_, form, rfl⟩
  obtain ⟨l, form, rfl⟩ := hform
  exact ⟨l, form, rfl, (value?_eq_some_iff form).2 h⟩

/-- A whole number in range is far below the largest binary one. -/
theorem value_lt_beyond_of_isWhole (h : IsWhole l) : l.decimal.value < Number.Binary64.beyond := by
  have hbeyond : 18446744073709551615 < Number.Binary64.beyond := by
    unfold Number.Binary64.beyond
    decide +kernel
  have hvalue : l.decimal.value = Number.valueOfDigits l.whole := by
    simp [NumberLiteral.decimal, Number.Decimal.value, h.fraction, h.exponent]
  have hrange := h.inRange
  unfold signed at hrange
  have hless : Number.valueOfDigits l.whole < Number.Binary64.beyond := by
    split at hrange <;> omega
  rw [hvalue]
  exact_mod_cast hless

/-- What has the form of a number stands for one unless it is too large. -/
theorem exists_denotes_iff (form : l.InForm) :
    (∃ n, Denotes l.chars n) ↔ l.decimal.value < Number.Binary64.beyond := by
  simp only [← value?_eq_some_iff form, ← Option.isSome_iff_exists]
  by_cases hwhole : IsWhole l
  · exact iff_of_true (by rw [value?_of_isWhole form hwhole]; rfl) (value_lt_beyond_of_isWhole hwhole)
  · rw [value?_of_not_isWhole form hwhole, Number.ofDecimal?, Option.isSome_map,
      Number.Binary64.isSome_ofDecimal?_iff]

/-- A text stands for a number just if it has the form of one and is not too large. -/
theorem exists_denotes_text_iff :
    (∃ n, Denotes cs n) ↔ cs ∈ form ∧ ∀ q, HasMagnitude cs q → q < Number.Binary64.beyond := by
  constructor
  · rintro ⟨n, h⟩
    obtain ⟨l, hl, rfl, -⟩ := h.exists_literal
    refine ⟨mem_form_iff.2 ⟨l, hl, rfl⟩, ?_⟩
    rintro q ⟨k, hk, hchars, rfl⟩
    obtain rfl := chars_inj hk hl hchars
    exact (exists_denotes_iff hk).1 ⟨n, h⟩
  · rintro ⟨hform, hsmall⟩
    obtain ⟨l, hl, rfl⟩ := mem_form_iff.1 hform
    exact (exists_denotes_iff hl).2 (hsmall _ ⟨l, hl, rfl, rfl⟩)

/-- The whole numbers in range are just the values of digits, and of digits behind a `-`. -/
theorem denotes_whole_iff {i : Int} (h : -9223372036854775808 ≤ i ∧ i ≤ 18446744073709551615) :
    Denotes cs (.whole i h) ↔ IsInteger cs i := by
  constructor
  · rintro ⟨form, hwhole⟩
    next l =>
    have hchars : l.chars = (if l.negative then ['-'] else []) ++ l.whole := by
      rw [chars_eq, hwhole.fraction, hwhole.exponent, form.glued]
      simp [fractionChars, exponentChars]
    rw [hchars]
    exact .mk l.negative form.whole
  · rintro ⟨negative, hdigits⟩
    next ds =>
    have form : NumberLiteral.InForm ⟨negative, ds, none, none, []⟩ := ⟨hdigits, by simp, by simp, rfl⟩
    have hchars : (if negative then ['-'] else []) ++ ds
        = NumberLiteral.chars ⟨negative, ds, none, none, []⟩ := by
      simp [NumberLiteral.chars]
    rw [hchars]
    exact .whole form ⟨rfl, rfl, h⟩

/-- A number prints as a text that stands for it. -/
theorem denotes_chars (n : Number) : Denotes n.chars n := by
  rw [← Number.chars_literal]
  exact (value?_eq_some_iff (Number.regular_literal n).inForm).1 (Number.value?_literal n)

/-- A literal that was scanned is read as what its text stands for. -/
theorem value?_scan_iff (h : startsNumber cs = true) :
    (scan cs).1.value? = some n ↔ Denotes (scan cs).1.chars n := by
  by_cases form : (scan cs).1.InForm
  · exact value?_eq_some_iff form
  · refine iff_of_false ?_ fun hdenotes => form (mem_form_scan_iff.1 ?_)
    · rw [value?, if_neg fun hformed => form ((inForm_scan_iff h).2 hformed)]
      exact Option.some_ne_none n ∘ Eq.symm
    · obtain ⟨l, form', hchars, -⟩ := hdenotes.exists_literal
      exact mem_form_iff.2 ⟨l, form', hchars⟩

end

end TagQuery.Numeral
