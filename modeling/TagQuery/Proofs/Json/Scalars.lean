import TagQuery.Json.Printer
import TagQuery.Json.Reader
import TagQuery.Proofs.Except
import TagQuery.Proofs.Number.Literal

/-!
# Scalars that are read back

Each reader takes just the characters that were printed, whatever stands behind them, and the place that it
gives is the one behind them:

    readString ⟨p, s.toList.flatMap escapedChar ++ '"' :: rest⟩ = .ok (s, ⟨…, rest⟩)  (readString_printed)
    readNumber (…) ⟨p, … ++ rest⟩ = .ok (n, ⟨…, rest⟩)                                (readNumber_literal)

A number ends where no word goes on (`StopsAt continuesWord`); the other scalars end by themselves.
Whole numbers are read back from their texts, and binary ones if the steps of reading round to them
(`ReadsBack`). -/

namespace TagQuery.Json

open Text

/-! ## Places -/

namespace Place

@[simp] theorem afterAll_nil (p : Place) : p.afterAll [] = p := rfl

@[simp] theorem afterAll_cons (p : Place) (c : Char) (cs : List Char) :
    p.afterAll (c :: cs) = (p.after c).afterAll cs := rfl

@[simp] theorem afterAll_append (p : Place) (cs ds : List Char) :
    p.afterAll (cs ++ ds) = (p.afterAll cs).afterAll ds :=
  List.foldl_append

end Place

variable {p : Place} {rest : List Char}

namespace Cursor

theorem skipSpace_append {cs : List Char} (h : ∀ c ∈ cs, isSpace c = true)
    (stop : StopsAt isSpace rest) : skipSpace ⟨p, cs ++ rest⟩ = ⟨p.afterAll cs, rest⟩ := by
  unfold skipSpace
  simp only [takeWhile_append_stop h stop, dropWhile_append_stop h stop, skip]

theorem skipSpace_stop (stop : StopsAt isSpace rest) : skipSpace ⟨p, rest⟩ = ⟨p, rest⟩ :=
  @skipSpace_append p rest [] (by simp) stop

theorem skipSpace_skipSpace (c : Cursor) : c.skipSpace.skipSpace = c.skipSpace :=
  skipSpace_stop (stopsAt_dropWhile isSpace c.rest)

theorem takeDigits_append {ds : List Char} (h : IsDigits ds) (stop : StopsAt isDigit rest) :
    takeDigits ⟨p, ds ++ rest⟩ = (ds, ⟨p.afterAll ds, rest⟩) := by
  unfold takeDigits
  simp only [h.takeWhile stop, h.dropWhile stop, skip]

end Cursor

theorem readWord_append (ws : List Char) :
    readWord ⟨p, ws ++ rest⟩ ws = .ok ⟨p.afterAll ws, rest⟩ := by
  induction ws generalizing p with
  | nil => rfl
  | cons w ws ih => simp [readWord, ih]

/-! ## Strings -/

/-- The code of a control is four characters of a byte each, and is read as what it is. -/
theorem hexDigits_control : ∀ n < 32, byteLength (hexDigits n) = 4
    ∧ (hexDigits n).mapM Number.digitValue? = some [0, 0, n / 16, n % 16] := by
  decide

theorem readHex_control {n : Nat} (h : n < 32) :
    readHex ⟨p, hexDigits n ++ rest⟩ = .ok (n, ⟨p.afterAll (hexDigits n), rest⟩) := by
  obtain ⟨hbytes, hvalues⟩ := hexDigits_control n h
  have htake : takeBytes 4 (hexDigits n ++ rest) = hexDigits n := by
    rw [← hbytes]
    exact takeBytes_byteLength _ _
  have hvalue : ((0 * 16 + 0) * 16 + n / 16) * 16 + n % 16 = n := by omega
  simp only [readHex, htake, hbytes, hvalues, Cursor.skip, List.drop_left, Nat.lt_irrefl, if_false,
    hvalue]

theorem readUnicode_control {c : Char} (h : c.toNat < 32) :
    readUnicode ⟨p, hexDigits c.toNat ++ rest⟩
      = .ok (c, ⟨p.afterAll (hexDigits c.toNat), rest⟩) := by
  have hlow : ¬(0xDC00 ≤ c.toNat ∧ c.toNat ≤ 0xDFFF) := by omega
  have hhalf : c.toNat < 0xD800 ∨ 0xDFFF < c.toNat := by omega
  unfold readUnicode
  rw [readHex_control h]
  simp only [Except.ok_bind, if_neg hlow, if_pos hhalf, Char.ofNat_toNat]

/-- What an escape of one letter is read as. -/
theorem readStringChars_escape {mark c : Char} (hmark : mark ≠ 'u') (h : escape? mark = some c) :
    readStringChars ⟨p, '\\' :: mark :: rest⟩
      = (readStringChars ⟨(p.after '\\').after mark, rest⟩).map fun r => (c :: r.1, r.2) := by
  rw [readStringChars]
  have hshort : rest.length < ('\\' :: mark :: rest).length := by
    simp only [List.length_cons]
    omega
  simp only [readEscape, hmark, h, if_false, Except.ok_bind, dif_pos hshort, Char.reduceEq]
  rfl

theorem readStringChars_control {c : Char} (h : c.toNat < 32) :
    readStringChars ⟨p, '\\' :: 'u' :: (hexDigits c.toNat ++ rest)⟩
      = (readStringChars ⟨((p.after '\\').after 'u').afterAll (hexDigits c.toNat), rest⟩).map
          fun r => (c :: r.1, r.2) := by
  rw [readStringChars]
  have hshort : rest.length < ('\\' :: 'u' :: (hexDigits c.toNat ++ rest)).length := by
    simp only [List.length_cons, List.length_append]
    omega
  simp only [readEscape, readUnicode_control h, if_true, if_false, Except.ok_bind, dif_pos hshort,
    Char.reduceEq]
  rfl

/-- What stands for itself. -/
theorem readStringChars_plain {c : Char} (hquote : c ≠ '"') (hslash : c ≠ '\\')
    (hcontrol : ¬c.toNat < 32) :
    readStringChars ⟨p, c :: rest⟩
      = (readStringChars ⟨p.after c, rest⟩).map fun r => (c :: r.1, r.2) := by
  rw [readStringChars]
  simp only [hquote, hslash, hcontrol, if_false]
  rfl

/-- One character of a string, as it is printed, is read as that character. -/
theorem readStringChars_escapedChar (c : Char) :
    readStringChars ⟨p, escapedChar c ++ rest⟩
      = (readStringChars ⟨p.afterAll (escapedChar c), rest⟩).map fun r => (c :: r.1, r.2) := by
  unfold escapedChar
  split
  · next hself =>
    apply readStringChars_escape
    · rintro rfl
      revert hself
      decide
    · rcases hself with rfl | rfl <;> rfl
  · next hself =>
    obtain ⟨hquote, hslash⟩ := not_or.1 hself
    iterate 5
      split
      · next hc =>
        subst hc
        exact readStringChars_escape (by decide) rfl
    split
    · next hcontrol => exact readStringChars_control hcontrol
    · next hcontrol => exact readStringChars_plain hquote hslash hcontrol

theorem readStringChars_printed (cs : List Char) :
    readStringChars ⟨p, cs.flatMap escapedChar ++ '"' :: rest⟩
      = .ok (cs, ⟨(p.afterAll (cs.flatMap escapedChar)).after '"', rest⟩) := by
  induction cs generalizing p with
  | nil =>
    rw [readStringChars]
    rfl
  | cons c cs ih =>
    rw [List.flatMap_cons, List.append_assoc, readStringChars_escapedChar, ih, Place.afterAll_append]
    rfl

theorem readString_printed (s : String) :
    readString ⟨p, s.toList.flatMap escapedChar ++ '"' :: rest⟩
      = .ok (s, ⟨(p.afterAll (s.toList.flatMap escapedChar)).after '"', rest⟩) := by
  unfold readString
  rw [readStringChars_printed, Except.ok_bind]
  simp only [String.ofList_toList]
  rfl

/-! ## Numbers -/

open NumberLiteral in
theorem readFraction_append {ds? : Option (List Char)} (h : ∀ ds ∈ ds?, IsDigits ds)
    (stop : StopsAt endsDigits rest) :
    readFraction ⟨p, fractionChars ds? ++ rest⟩
      = .ok (ds?, ⟨p.afterAll (fractionChars ds?), rest⟩) := by
  cases ds? with
  | none =>
    cases rest with
    | nil => rfl
    | cons c cs =>
      have hc : c ≠ '.' := by simpa using (Bool.or_eq_false_iff.1 (stop c rfl)).2
      simp [fractionChars, readFraction, hc]
  | some ds =>
    have hds := h ds rfl
    have hne : ds.isEmpty = false := by simpa using hds.1
    have hstop : StopsAt isDigit rest := fun c hc => (Bool.or_eq_false_iff.1 (stop c hc)).1
    simp [fractionChars, readFraction, Cursor.takeDigits_append hds hstop, hne]

theorem readExponent_append {e? : Option ExponentPart} (h : ∀ e ∈ e?, e.Regular)
    (stop : StopsAt continuesWord rest) :
    readExponent ⟨p, NumberLiteral.exponentChars e? ++ rest⟩
      = .ok (e?, ⟨p.afterAll (NumberLiteral.exponentChars e?), rest⟩) := by
  cases e? with
  | none =>
    cases rest with
    | nil => rfl
    | cons c cs =>
      have he : c ≠ 'e' := stop.ne (by decide)
      have hE : c ≠ 'E' := stop.ne (by decide)
      simp [NumberLiteral.exponentChars, readExponent, he, hE]
  | some e =>
    obtain ⟨mark, sign, digits⟩ := e
    have hregular := h _ rfl
    have hmark : mark = 'e' ∨ mark = 'E' := hregular.mark
    have hdigits : IsDigits digits := hregular.digits
    have htake := fun q : Place => Cursor.takeDigits_append (p := q) hdigits stop.isDigit
    obtain ⟨c, cs, rfl, hc⟩ := hdigits.eq_cons
    simp only [List.cons_append] at htake
    cases sign with
    | some s =>
      have hs : s = '+' ∨ s = '-' := hregular.sign s rfl
      simp [NumberLiteral.exponentChars, ExponentPart.chars, readExponent, readSign, hmark, hs, hc, htake]
    | none =>
      have hplus : c ≠ '+' := ne_of_isDigit hc (by decide)
      have hminus : c ≠ '-' := ne_of_isDigit hc (by decide)
      simp [NumberLiteral.exponentChars, ExponentPart.chars, readExponent, readSign, hmark, hplus,
        hminus, hc, htake]

/-- A number is read back from the literal that it prints as. -/
def ReadsBack (n : Number) : Prop :=
  numberOf? n.literal = some n

instance (n : Number) : Decidable (ReadsBack n) :=
  inferInstanceAs (Decidable (_ = _))

theorem readsBack_whole (value : Int) (h : -9223372036854775808 ≤ value ∧ value ≤ 18446744073709551615) :
    ReadsBack (.whole value h) := by
  have hzero : ((Number.literal (.whole value h)).negative
      && (Number.literal (.whole value h)).decimal.digits == 0) = false := by
    rcases Int.lt_or_le value 0 with hneg | hpos
    · simp [Number.literal, NumberLiteral.decimal, Int.ne_of_lt hneg]
    · simp [Number.literal, Int.not_lt.2 hpos]
  unfold ReadsBack numberOf?
  rw [hzero, Number.whole?_literal]
  rfl

/-- `51.248178375505404` is rounded twice when it is read, and not to the number that it is the text of. -/
example : ¬ReadsBack (.binary ⟨false, 7212539907354464, 1027, by decide, by decide⟩) := by
  decide +kernel

theorem readNumberTail_literal {l : NumberLiteral} {n : Number} (h : l.Regular)
    (hn : numberOf? l = some n) (stop : StopsAt continuesWord rest) :
    readNumberTail l.negative l.whole
        ⟨p, NumberLiteral.fractionChars l.fraction ++ (NumberLiteral.exponentChars l.exponent ++ rest)⟩
      = .ok (n, ⟨(p.afterAll (NumberLiteral.fractionChars l.fraction)).afterAll
          (NumberLiteral.exponentChars l.exponent), rest⟩) := by
  obtain ⟨negative, whole, fraction, exponent, glued⟩ := l
  obtain rfl : glued = [] := h.glued
  unfold readNumberTail
  rw [readFraction_append h.fraction (NumberLiteral.stopsAt_exponent h.exponent stop),
    Except.ok_bind]
  simp only
  rw [readExponent_append h.exponent stop, Except.ok_bind]
  simp only [hn]
  rfl

/-- The digits of a literal with what follows them are read as its number. -/
theorem readNumber_literal {l : NumberLiteral} {n : Number} (h : l.Regular)
    (hn : numberOf? l = some n) (stop : StopsAt continuesWord rest) :
    readNumber l.negative
        ⟨p, l.whole ++ (NumberLiteral.fractionChars l.fraction
          ++ (NumberLiteral.exponentChars l.exponent ++ rest))⟩
      = .ok (n, ⟨((p.afterAll l.whole).afterAll (NumberLiteral.fractionChars l.fraction)).afterAll
          (NumberLiteral.exponentChars l.exponent), rest⟩) := by
  have hstop := NumberLiteral.stopsAt_fraction l.fraction
    (NumberLiteral.stopsAt_exponent h.exponent stop)
  have htail := fun q : Place => readNumberTail_literal (p := q) h hn stop
  have htake := Cursor.takeDigits_append (p := p) h.whole hstop
  generalize NumberLiteral.fractionChars l.fraction
    ++ (NumberLiteral.exponentChars l.exponent ++ rest) = behind at hstop htail htake ⊢
  obtain ⟨c, cs, hwhole, hc⟩ := h.whole.eq_cons
  by_cases hzero : c = '0'
  · have halone : l.whole = ['0'] := h.leading (by rw [hwhole, hzero]; rfl)
    rw [halone] at htail ⊢
    cases behind with
    | nil => simp [readNumber, htail]
    | cons d behind =>
      have hd : isDigit d = false := hstop d rfl
      simp [readNumber, htail, hd]
  · rw [hwhole] at htail htake ⊢
    rw [List.cons_append] at htake ⊢
    simp [readNumber, hzero, hc, htake, htail]

/-- The text of a number starts with a minus sign or with a digit. -/
theorem head_chars (n : Number) :
    (∃ cs, n.chars = '-' :: cs) ∨ ∃ c cs, n.chars = c :: cs ∧ isDigit c = true := by
  have hregular := n.regular_literal
  have hchars := n.literal.chars_eq
  rw [n.chars_literal] at hchars
  obtain ⟨c, cs, hwhole, hc⟩ := hregular.whole.eq_cons
  cases hsign : n.literal.negative with
  | true => exact .inl ⟨_, by simpa [hsign] using hchars⟩
  | false => exact .inr ⟨c, _, by simpa [hsign, hwhole] using hchars, hc⟩

/-- A number is read behind its minus sign, or from its first digit on. -/
theorem readNumber_chars {n : Number} (back : ReadsBack n) :
    (∃ cs, n.chars = '-' :: cs ∧ ∀ {p : Place} {rest : List Char}, StopsAt continuesWord rest →
      readNumber true ⟨p, cs ++ rest⟩ = .ok (n, ⟨p.afterAll cs, rest⟩))
    ∨ ∃ c cs, n.chars = c :: cs ∧ isDigit c = true
      ∧ ∀ {p : Place} {rest : List Char}, StopsAt continuesWord rest →
        readNumber false ⟨p, c :: (cs ++ rest)⟩ = .ok (n, ⟨p.afterAll (c :: cs), rest⟩) := by
  have hregular := n.regular_literal
  have hread := fun (q : Place) {rest : List Char} (stop : StopsAt continuesWord rest) =>
    readNumber_literal (p := q) hregular back stop
  have hchars := n.literal.chars_eq
  rw [n.chars_literal, hregular.glued, List.append_nil] at hchars
  cases hsign : n.literal.negative with
  | true =>
    rw [hsign] at hchars hread
    refine .inl ⟨_, hchars, fun {p rest} stop => ?_⟩
    simpa using hread p stop
  | false =>
    rw [hsign] at hchars hread
    obtain ⟨c, cs, hwhole, hc⟩ := hregular.whole.eq_cons
    rw [hwhole] at hchars hread
    refine .inr ⟨c, _, hchars, hc, fun {p rest} stop => ?_⟩
    simpa using hread p stop

/-! ## Numbers in values -/

mutual

/-- The numbers in a value, those of its items and members too. -/
def numbers : Json → List Number
  | .number n => [n]
  | .array items => numbersItems items
  | .object members => numbersMembers members
  | _ => []

def numbersItems : List Json → List Number
  | [] => []
  | v :: vs => numbers v ++ numbersItems vs

def numbersMembers : List (String × Json) → List Number
  | [] => []
  | (_, v) :: ms => numbers v ++ numbersMembers ms

end

/-- All numbers in the value are read back from their texts. -/
def NumbersReadBack (v : Json) : Prop :=
  ∀ n ∈ v.numbers, ReadsBack n

instance (v : Json) : Decidable v.NumbersReadBack :=
  inferInstanceAs (Decidable (∀ n ∈ _, _))

namespace NumbersReadBack

theorem number {n : Number} (h : (Json.number n).NumbersReadBack) : ReadsBack n :=
  h n (by simp [numbers])

theorem array_iff {items : List Json} :
    (Json.array items).NumbersReadBack ↔ ∀ v ∈ items, v.NumbersReadBack := by
  unfold NumbersReadBack
  rw [numbers]
  induction items with
  | nil => simp [numbersItems]
  | cons v vs ih => simp [numbersItems, or_imp, forall_and, ih]

theorem object_iff {members : List (String × Json)} :
    (Json.object members).NumbersReadBack ↔ ∀ m ∈ members, m.2.NumbersReadBack := by
  unfold NumbersReadBack
  rw [numbers]
  induction members with
  | nil => simp [numbersMembers]
  | cons m ms ih => simp [numbersMembers, or_imp, forall_and, ih]

end NumbersReadBack

/-! ## Scalars -/

/-- The text of a scalar. -/
def Scalar.chars (s : Scalar) : List Char :=
  s.toJson.chars .compact 0

/-- A scalar has one text in all layouts and at all levels. -/
theorem Scalar.chars_toJson (s : Scalar) (layout : Layout) (level : Nat) :
    s.toJson.chars layout level = s.chars := by
  cases s with
  | boolean b => cases b <;> rfl
  | _ => rfl

/-- What the text of a scalar starts with. -/
def startsScalar (c : Char) : Bool :=
  isDigit c || ['n', 't', 'f', '-', '"'].contains c

theorem classes_of_startsScalar {c : Char} (h : startsScalar c = true) :
    Cursor.isSpace c = false ∧ c ≠ '[' ∧ c ≠ ']' ∧ c ≠ '\x7b' := by
  have all : (['0', '1', '2', '3', '4', '5', '6', '7', '8', '9'] ++ ['n', 't', 'f', '-', '"']).all
      (fun d => !Cursor.isSpace d && d != '[' && d != ']' && d != '\x7b') = true := by decide
  have hmem : c ∈ ['0', '1', '2', '3', '4', '5', '6', '7', '8', '9'] ++ ['n', 't', 'f', '-', '"'] := by
    rcases Bool.or_eq_true _ _ ▸ h with hdigit | hmark
    · exact List.mem_append_left _ (mem_of_isDigit hdigit)
    · exact List.mem_append_right _ (List.contains_iff_mem.1 hmark)
  simpa [and_assoc] using List.all_eq_true.1 all c hmem

theorem Scalar.head_chars (s : Scalar) : ∃ c cs, s.chars = c :: cs ∧ startsScalar c = true := by
  cases s with
  | null => exact ⟨'n', "ull".toList, rfl, rfl⟩
  | boolean b => cases b <;> exact ⟨_, _, rfl, rfl⟩
  | number n =>
    rcases Json.head_chars n with ⟨cs, hchars⟩ | ⟨c, cs, hchars, hc⟩
    · exact ⟨'-', cs, hchars, rfl⟩
    · exact ⟨c, cs, hchars, by simp [startsScalar, hc]⟩
  | string text => exact ⟨'"', _, rfl, rfl⟩

/-- **Scalars are read back**, numbers if they can be. -/
theorem readScalar_chars {s : Scalar} (back : s.toJson.NumbersReadBack) :
    ∃ c cs, s.chars = c :: cs ∧ startsScalar c = true
    ∧ ∀ {p : Place} {rest : List Char}, StopsAt continuesWord rest →
      readScalar c ⟨p, c :: (cs ++ rest)⟩ ⟨p.after c, cs ++ rest⟩
        = .ok (s, ⟨p.afterAll (c :: cs), rest⟩) := by
  cases s with
  | null =>
    refine ⟨'n', "ull".toList, rfl, rfl, fun _ => ?_⟩
    simp only [readScalar, if_true, readWord_append]
    rfl
  | boolean b =>
    cases b with
    | true =>
      refine ⟨'t', "rue".toList, rfl, rfl, fun _ => ?_⟩
      simp only [readScalar, Char.reduceEq, if_true, if_false, readWord_append]
      rfl
    | false =>
      refine ⟨'f', "alse".toList, rfl, rfl, fun _ => ?_⟩
      simp only [readScalar, Char.reduceEq, if_true, if_false, readWord_append]
      rfl
  | number n =>
    rcases readNumber_chars back.number with ⟨cs, hchars, hread⟩ | ⟨c, cs, hchars, hc, hread⟩
    · refine ⟨'-', cs, hchars, rfl, fun stop => ?_⟩
      simp only [readScalar, Char.reduceEq, if_true, if_false, hread stop]
      rfl
    · have hn : c ≠ 'n' := ne_of_isDigit hc (by decide)
      have ht : c ≠ 't' := ne_of_isDigit hc (by decide)
      have hf : c ≠ 'f' := ne_of_isDigit hc (by decide)
      have hminus : c ≠ '-' := ne_of_isDigit hc (by decide)
      refine ⟨c, cs, hchars, by simp [startsScalar, hc], fun stop => ?_⟩
      simp only [readScalar, hn, ht, hf, hminus, hc, if_true, if_false, hread stop]
      rfl
  | string text =>
    have hquote : isDigit '"' = false := by decide
    refine ⟨'"', text.toList.flatMap escapedChar ++ ['"'], rfl, rfl, fun {p rest} _ => ?_⟩
    have hread := @readString_printed (p.after '"') rest text
    rw [List.append_assoc]
    simp only [readScalar, Char.reduceEq, hquote, if_true, if_false, Bool.false_eq_true]
    rw [List.singleton_append, hread]
    simp

/-- `null` is read from its own first letter only. -/
theorem eq_of_readScalar_null {ch : Char} {c behind d : Cursor}
    (h : readScalar ch c behind = .ok (.null, d)) : ch = 'n' := by
  by_cases hn : ch = 'n'
  · exact hn
  · simp only [readScalar, hn, if_false] at h
    split at h
    · obtain ⟨e, -, h⟩ := Except.bind_ok_iff.1 h
      simp [pure, Except.pure] at h
    · split at h
      · obtain ⟨e, -, h⟩ := Except.bind_ok_iff.1 h
        simp [pure, Except.pure] at h
      · split at h
        · obtain ⟨e, -, h⟩ := Except.bind_ok_iff.1 h
          simp [pure, Except.pure] at h
        · split at h
          · obtain ⟨e, -, h⟩ := Except.bind_ok_iff.1 h
            simp [pure, Except.pure] at h
          · split at h
            · obtain ⟨e, -, h⟩ := Except.bind_ok_iff.1 h
              simp [pure, Except.pure] at h
            · simp at h

end TagQuery.Json
