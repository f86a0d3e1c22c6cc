import TagQuery.Json.Skipper
import TagQuery.Proofs.Json.Values

/-!
# Values that are passed over

What is read can be passed over, and ends at the same place: the reader recurses on values inside values,
and the skipper keeps their brackets on a stack, of which it leaves all that were there before.

    readValue levels c = .ok (v, d) → skipValue c = .ok d                        (skipValue_of_readValue)

`Skips c d` says that a run from `c` in front of a value comes to `d` behind it, whatever brackets are open.
A run goes on behind each of its steps (`run_value`, `run_inside`); a value takes a character at least
(`length_of_readValue`).
-/

namespace TagQuery.Json

/-! ## Texts that become shorter -/

theorem Cursor.length_skipSpace (c : Cursor) : c.skipSpace.rest.length ≤ c.rest.length :=
  (List.dropWhile_suffix _).length_le

theorem Cursor.length_takeDigits (c : Cursor) : c.takeDigits.2.rest.length ≤ c.rest.length :=
  (List.dropWhile_suffix _).length_le

theorem length_of_readWord {ws : List Char} {c d : Cursor} (h : readWord c ws = .ok d) :
    d.rest.length ≤ c.rest.length := by
  induction ws generalizing c with
  | nil => exact Except.ok.inj h ▸ Nat.le_refl _
  | cons w ws ih =>
    unfold readWord at h
    split at h
    · simp at h
    · next ch rest hc =>
      simp only at h
      split at h
      · have hle := ih h
        rw [hc, List.length_cons]
        exact hle.trans (Nat.le_succ _)
      · simp at h

theorem length_of_readStringChars {c d : Cursor} {cs : List Char} (h : readStringChars c = .ok (cs, d)) :
    d.rest.length < c.rest.length := by
  rw [readStringChars] at h
  split at h
  · simp at h
  · next ch rest hc =>
    simp only at h
    have hshort : rest.length < c.rest.length := by simp [hc]
    split at h
    · obtain ⟨-, rfl⟩ := Prod.mk.inj (Except.ok.inj h)
      exact hshort
    · split at h
      · obtain ⟨⟨e, c'⟩, -, h⟩ := Except.bind_ok_iff.1 h
        simp only at h
        split at h
        · next hlt =>
          obtain ⟨⟨es, d'⟩, hlater, h⟩ := Except.bind_ok_iff.1 h
          obtain ⟨-, rfl⟩ := Prod.mk.inj (Except.ok.inj h)
          exact (length_of_readStringChars hlater).trans hlt
        · simp at h
      · split at h
        · simp at h
        · obtain ⟨⟨es, d'⟩, hlater, h⟩ := Except.bind_ok_iff.1 h
          obtain ⟨-, rfl⟩ := Prod.mk.inj (Except.ok.inj h)
          exact (length_of_readStringChars hlater).trans hshort
termination_by c.rest.length

theorem length_of_readHex {c d : Cursor} {n : Nat} (h : readHex c = .ok (n, d)) :
    d.rest.length ≤ c.rest.length := by
  unfold readHex at h
  simp only at h
  split at h
  · simp at h
  · split at h
    · obtain ⟨-, rfl⟩ := Prod.mk.inj (Except.ok.inj h)
      simp [Cursor.skip]
    · simp at h

/-! ## Strings -/

/-- Behind an escaped code the skipper goes on as behind any other escape. -/
theorem skipString_unicode {c d : Cursor} {rest : List Char} {n : Nat}
    (start : c.rest = '\\' :: 'u' :: rest)
    (hex : readHex ⟨(c.place.after '\\').after 'u', rest⟩ = .ok (n, d)) :
    skipString c = skipString d := by
  obtain ⟨p, cs⟩ := c
  obtain rfl : cs = _ := start
  have hshort := length_of_readHex hex
  have hlt : d.rest.length < ('\\' :: 'u' :: rest).length := by
    simp only [List.length_cons] at hshort ⊢
    omega
  rw [skipString]
  simp only [Char.reduceEq, if_false, if_true, hex, Except.ok_bind, dif_pos hlt]

/-- A mark that has to be there is the next character. -/
theorem eq_of_readEscapeMark {mark : Char} {c d : Cursor} (h : readEscapeMark mark c = .ok d) :
    ∃ rest, c.rest = mark :: rest ∧ d = ⟨c.place.after mark, rest⟩ := by
  unfold readEscapeMark at h
  split at h
  · simp at h
  · next ch rest hc =>
    simp only at h
    split at h
    · next heq => exact ⟨rest, heq ▸ hc, heq ▸ (Except.ok.inj h).symm⟩
    · simp at h

/-- One character that is escaped, or two halves of one. -/
theorem skipString_of_readEscape {p : Place} {rest : List Char} {d : Cursor} {e : Char}
    (h : readEscape ⟨p.after '\\', rest⟩ = .ok (e, d)) :
    skipString ⟨p, '\\' :: rest⟩ = skipString d := by
  unfold readEscape at h
  split at h
  · simp at h
  · next ch rest' hrest =>
    obtain rfl : rest = ch :: rest' := hrest
    simp only at h
    split at h
    · next hu =>
      subst hu
      unfold readUnicode at h
      obtain ⟨⟨n, c⟩, hhex, h⟩ := Except.bind_ok_iff.1 h
      have hfirst : skipString ⟨p, '\\' :: 'u' :: rest'⟩ = skipString c := skipString_unicode rfl hhex
      simp only at h
      split at h
      · simp at h
      · split at h
        · obtain ⟨-, rfl⟩ := Prod.mk.inj (Except.ok.inj h)
          exact hfirst
        · obtain ⟨c₁, hslash, h⟩ := Except.bind_ok_iff.1 h
          obtain ⟨c₂, hmark, h⟩ := Except.bind_ok_iff.1 h
          obtain ⟨⟨m, c₃⟩, hlow, h⟩ := Except.bind_ok_iff.1 h
          obtain ⟨rest₁, hc, hc₁⟩ := eq_of_readEscapeMark hslash
          obtain ⟨rest₂, hrest₁, hc₂⟩ := eq_of_readEscapeMark hmark
          have hstart : c.rest = '\\' :: 'u' :: rest₂ := by
            rw [hc₁] at hrest₁
            rw [hc, ← hrest₁]
          have hsecond : skipString c = skipString c₃ := by
            rw [hc₂, hc₁] at hlow
            exact skipString_unicode hstart hlow
          simp only at h
          split at h
          · simp at h
          · obtain ⟨-, rfl⟩ := Prod.mk.inj (Except.ok.inj h)
            exact hfirst.trans hsecond
    · next hu =>
      split at h
      · next hescape =>
        obtain ⟨-, rfl⟩ := Prod.mk.inj (Except.ok.inj h)
        rw [skipString]
        simp only [Char.reduceEq, if_false, if_true, hu, hescape, Option.isSome_some]
      · simp at h

theorem skipString_of_readStringChars {p : Place} {text cs : List Char} {d : Cursor}
    (h : readStringChars ⟨p, text⟩ = .ok (cs, d)) : skipString ⟨p, text⟩ = .ok d := by
  rw [readStringChars] at h
  split at h
  · simp at h
  · next ch rest hc =>
    obtain rfl : text = ch :: rest := hc
    simp only at h
    split at h
    · next hquote =>
      obtain ⟨-, rfl⟩ := Prod.mk.inj (Except.ok.inj h)
      rw [skipString]
      simp only [hquote, if_true]
    · next hquote =>
      split at h
      · next hslash =>
        subst hslash
        obtain ⟨⟨e, c'⟩, hescape, h⟩ := Except.bind_ok_iff.1 h
        simp only at h
        split at h
        · next hlt =>
          obtain ⟨⟨es, d'⟩, hlater, h⟩ := Except.bind_ok_iff.1 h
          obtain ⟨-, rfl⟩ := Prod.mk.inj (Except.ok.inj h)
          rw [skipString_of_readEscape hescape]
          exact skipString_of_readStringChars hlater
        · simp at h
      · next hslash =>
        split at h
        · simp at h
        · next hcontrol =>
          obtain ⟨⟨es, d'⟩, hlater, h⟩ := Except.bind_ok_iff.1 h
          obtain ⟨-, rfl⟩ := Prod.mk.inj (Except.ok.inj h)
          rw [skipString]
          simp only [hquote, hslash, hcontrol, if_false]
          exact skipString_of_readStringChars hlater
termination_by text.length

/-- A string is passed over. -/
theorem skipString_of_readString {c d : Cursor} {s : String} (h : readString c = .ok (s, d)) :
    skipString c = .ok d ∧ d.rest.length < c.rest.length := by
  obtain ⟨⟨cs, e⟩, hchars, h⟩ := Except.bind_ok_iff.1 h
  obtain ⟨-, rfl⟩ := Prod.mk.inj (Except.ok.inj h)
  exact ⟨skipString_of_readStringChars hchars, length_of_readStringChars hchars⟩

/-! ## Numbers -/

theorem skipFraction_of_readFraction {c d : Cursor} {ds : Option (List Char)}
    (h : readFraction c = .ok (ds, d)) :
    skipFraction c = .ok d ∧ d.rest.length ≤ c.rest.length := by
  unfold readFraction at h
  split at h
  · next hc =>
    obtain ⟨-, rfl⟩ := Prod.mk.inj (Except.ok.inj h)
    exact ⟨by simp only [skipFraction, hc], Nat.le_refl _⟩
  · next ch rest hc =>
    split at h
    · next hpoint =>
      simp only at h
      split at h
      · simp at h
      · next hdigits =>
        obtain ⟨-, rfl⟩ := Prod.mk.inj (Except.ok.inj h)
        refine ⟨by simp only [skipFraction, hc, if_pos hpoint, if_neg hdigits], ?_⟩
        have hle := Cursor.length_takeDigits ⟨c.place.after ch, rest⟩
        rw [hc, List.length_cons]
        exact hle.trans (Nat.le_succ _)
    · next hpoint =>
      obtain ⟨-, rfl⟩ := Prod.mk.inj (Except.ok.inj h)
      exact ⟨by simp only [skipFraction, hc, hpoint, if_false], Nat.le_refl _⟩

theorem length_readSign (c : Cursor) : (readSign c).2.rest.length ≤ c.rest.length := by
  unfold readSign
  split
  · next s rest hc =>
    split
    · simp [hc]
    · exact Nat.le_refl _
  · exact Nat.le_refl _

theorem skipExponent_of_readExponent {c d : Cursor} {e : Option ExponentPart}
    (h : readExponent c = .ok (e, d)) :
    skipExponent c = .ok d ∧ d.rest.length ≤ c.rest.length := by
  unfold readExponent at h
  split at h
  · next hc =>
    obtain ⟨-, rfl⟩ := Prod.mk.inj (Except.ok.inj h)
    exact ⟨by simp only [skipExponent, hc], Nat.le_refl _⟩
  · next mark rest hc =>
    split at h
    · next hmark =>
      simp only at h
      split at h
      · simp at h
      · next ch rest' hsign =>
        split at h
        · next hdigit =>
          obtain ⟨-, rfl⟩ := Prod.mk.inj (Except.ok.inj h)
          refine ⟨by simp only [skipExponent, hc, hmark, if_true, hsign, hdigit], ?_⟩
          have hdigits := Cursor.length_takeDigits (readSign ⟨c.place.after mark, rest⟩).2
          have hle := length_readSign ⟨c.place.after mark, rest⟩
          rw [hc, List.length_cons]
          exact (hdigits.trans hle).trans (Nat.le_succ _)
        · simp at h
    · next hmark =>
      obtain ⟨-, rfl⟩ := Prod.mk.inj (Except.ok.inj h)
      exact ⟨by simp only [skipExponent, hc, hmark, if_false], Nat.le_refl _⟩

theorem skipTail_of_readNumberTail {negative : Bool} {whole : List Char} {c d : Cursor} {n : Number}
    (h : readNumberTail negative whole c = .ok (n, d)) :
    (skipFraction c >>= skipExponent) = .ok d ∧ d.rest.length ≤ c.rest.length := by
  obtain ⟨⟨fraction, c₁⟩, hfraction, h⟩ := Except.bind_ok_iff.1 h
  obtain ⟨⟨exponent, c₂⟩, hexponent, h⟩ := Except.bind_ok_iff.1 h
  obtain ⟨hskip₁, hle₁⟩ := skipFraction_of_readFraction hfraction
  obtain ⟨hskip₂, hle₂⟩ := skipExponent_of_readExponent hexponent
  simp only at h
  split at h
  · obtain ⟨-, rfl⟩ := Prod.mk.inj (Except.ok.inj h)
    exact ⟨by rw [hskip₁, Except.ok_bind, hskip₂], hle₂.trans hle₁⟩
  · simp at h

/-- A number is passed over. -/
theorem skipNumber_of_readNumber {negative : Bool} {c d : Cursor} {n : Number}
    (h : readNumber negative c = .ok (n, d)) :
    skipNumber c = .ok d ∧ d.rest.length < c.rest.length := by
  have htail {whole : List Char} {e : Cursor} (hwhole : skipWhole c = .ok e)
      (hshort : e.rest.length < c.rest.length) (h : readNumberTail negative whole e = .ok (n, d)) :
      skipNumber c = .ok d ∧ d.rest.length < c.rest.length := by
    obtain ⟨hskip, hle⟩ := skipTail_of_readNumberTail h
    refine ⟨?_, hle.trans_lt hshort⟩
    rw [skipNumber, hwhole]
    exact hskip
  unfold readNumber at h
  split at h
  · simp at h
  · next ch rest hc =>
    have hshort : rest.length < c.rest.length := by simp [hc]
    simp only at h
    split at h
    · next hzero =>
      split at h
      · next digit hhead =>
        split at h
        · simp at h
        · next hdigit =>
          exact htail (by simp [skipWhole, hc, hzero, hhead, hdigit]) hshort h
      · next hhead => exact htail (by simp [skipWhole, hc, hzero, hhead]) hshort h
    · next hzero =>
      split at h
      · next hdigit =>
        refine htail (by simp only [skipWhole, hc, if_neg hzero, if_pos hdigit]) ?_ h
        have hle := (List.dropWhile_suffix isDigit (l := rest)).length_le
        simp only [Cursor.takeDigits, Cursor.skip, hc, List.dropWhile_cons, hdigit, if_true,
          List.length_cons]
        omega
      · simp at h

/-! ## Scalars -/

/-- The ways to read a scalar from `c`, of which `behind` has passed the first character. -/
inductive ScalarRead (c behind : Cursor) : Char → Scalar → Cursor → Prop where
  | null {d : Cursor} (word : readWord behind "ull".toList = .ok d) : ScalarRead c behind 'n' .null d
  | yes {d : Cursor} (word : readWord behind "rue".toList = .ok d) :
      ScalarRead c behind 't' (.boolean true) d
  | no {d : Cursor} (word : readWord behind "alse".toList = .ok d) :
      ScalarRead c behind 'f' (.boolean false) d
  | negative {n : Number} {d : Cursor} (own : readNumber true behind = .ok (n, d)) :
      ScalarRead c behind '-' (.number n) d
  | number {ch : Char} {n : Number} {d : Cursor} (digit : isDigit ch = true)
      (own : readNumber false c = .ok (n, d)) : ScalarRead c behind ch (.number n) d
  | string {s : String} {d : Cursor} (own : readString behind = .ok (s, d)) :
      ScalarRead c behind '"' (.string s) d

theorem readScalar_ok_iff {ch : Char} {c behind d : Cursor} {s : Scalar} :
    readScalar ch c behind = .ok (s, d) ↔ ScalarRead c behind ch s d := by
  constructor
  · intro h
    unfold readScalar at h
    split at h
    · next hch =>
      obtain ⟨e, hword, h⟩ := Except.bind_ok_iff.1 h
      obtain ⟨rfl, rfl⟩ := Prod.mk.inj (Except.ok.inj h)
      exact hch ▸ .null hword
    split at h
    · next hch =>
      obtain ⟨e, hword, h⟩ := Except.bind_ok_iff.1 h
      obtain ⟨rfl, rfl⟩ := Prod.mk.inj (Except.ok.inj h)
      exact hch ▸ .yes hword
    split at h
    · next hch =>
      obtain ⟨e, hword, h⟩ := Except.bind_ok_iff.1 h
      obtain ⟨rfl, rfl⟩ := Prod.mk.inj (Except.ok.inj h)
      exact hch ▸ .no hword
    split at h
    · next hch =>
      obtain ⟨⟨n, e⟩, hown, h⟩ := Except.bind_ok_iff.1 h
      obtain ⟨rfl, rfl⟩ := Prod.mk.inj (Except.ok.inj h)
      exact hch ▸ .negative hown
    split at h
    · next hdigit =>
      obtain ⟨⟨n, e⟩, hown, h⟩ := Except.bind_ok_iff.1 h
      obtain ⟨rfl, rfl⟩ := Prod.mk.inj (Except.ok.inj h)
      exact .number hdigit hown
    split at h
    · next hch =>
      obtain ⟨⟨s, e⟩, hown, h⟩ := Except.bind_ok_iff.1 h
      obtain ⟨rfl, rfl⟩ := Prod.mk.inj (Except.ok.inj h)
      exact hch ▸ .string hown
    · simp at h
  · intro h
    cases h with
    | null word => rw [readScalar, if_pos rfl, word]; rfl
    | yes word => simp only [readScalar, Char.reduceEq, if_true, if_false, word]; rfl
    | no word => simp only [readScalar, Char.reduceEq, if_true, if_false, word]; rfl
    | negative own => simp only [readScalar, Char.reduceEq, if_true, if_false, own]; rfl
    | number digit own =>
      have hn := ne_of_isDigit digit (d := 'n') (by decide)
      have ht := ne_of_isDigit digit (d := 't') (by decide)
      have hf := ne_of_isDigit digit (d := 'f') (by decide)
      have hminus := ne_of_isDigit digit (d := '-') (by decide)
      simp only [readScalar, hn, ht, hf, hminus, digit, if_true, if_false, own]
      rfl
    | string own =>
      have hdigit : isDigit '"' = false := rfl
      simp only [readScalar, Char.reduceEq, if_true, if_false, hdigit, Bool.false_eq_true, own]
      rfl

theorem ScalarRead.noBracket {c behind d : Cursor} {ch : Char} {s : Scalar}
    (h : ScalarRead c behind ch s d) : ch ≠ '[' ∧ ch ≠ '\x7b' := by
  cases h with
  | number digit own => exact ⟨ne_of_isDigit digit (by decide), ne_of_isDigit digit (by decide)⟩
  | _ => decide

/-- A scalar is passed over. -/
theorem ScalarRead.skip {ch : Char} {c d : Cursor} {rest : List Char} {s : Scalar}
    (h : ScalarRead c ⟨c.place.after ch, rest⟩ ch s d) (start : c.rest = ch :: rest) :
    skipScalar ch c ⟨c.place.after ch, rest⟩ = .ok d ∧ d.rest.length < c.rest.length := by
  have hshort : rest.length < c.rest.length := by simp [start]
  cases h with
  | null word => exact ⟨by simpa [skipScalar] using word, (length_of_readWord word).trans_lt hshort⟩
  | yes word => exact ⟨by simpa [skipScalar] using word, (length_of_readWord word).trans_lt hshort⟩
  | no word => exact ⟨by simpa [skipScalar] using word, (length_of_readWord word).trans_lt hshort⟩
  | negative own =>
    obtain ⟨hskip, hlt⟩ := skipNumber_of_readNumber own
    exact ⟨by simpa [skipScalar] using hskip, hlt.trans hshort⟩
  | number digit own =>
    obtain ⟨hskip, hlt⟩ := skipNumber_of_readNumber own
    have hn := ne_of_isDigit digit (d := 'n') (by decide)
    have ht := ne_of_isDigit digit (d := 't') (by decide)
    have hf := ne_of_isDigit digit (d := 'f') (by decide)
    have hminus := ne_of_isDigit digit (d := '-') (by decide)
    exact ⟨by simpa [skipScalar, hn, ht, hf, hminus, digit] using hskip, hlt⟩
  | string own =>
    obtain ⟨hskip, hlt⟩ := skipString_of_readString own
    have hdigit : isDigit '"' = false := rfl
    exact ⟨by simpa [skipScalar, hdigit] using hskip, hlt.trans hshort⟩

/-! ## What stands inside brackets -/

/-- What stands next inside an array: its end, its first item, or a later one behind a comma. -/
inductive NextItem : Bool → Cursor → Option Cursor → Prop where
  | close {first : Bool} {c : Cursor} {rest : List Char} (start : c.skipSpace.rest = ']' :: rest) :
      NextItem first c none
  | first {c : Cursor} {ch : Char} {rest : List Char} (start : c.skipSpace.rest = ch :: rest)
      (noClose : ch ≠ ']') : NextItem true c (some c.skipSpace)
  | later {c : Cursor} {rest : List Char} (start : c.skipSpace.rest = ',' :: rest) :
      NextItem false c (some (Cursor.skipSpace ⟨c.skipSpace.place.after ',', rest⟩))

theorem nextItem_spec {first : Bool} {c e : Cursor} {next : Option Cursor}
    (h : nextItem first c = .ok (next, e)) : NextItem first c next ∧ e = next.getD c.skipSpace := by
  unfold nextItem at h
  simp only at h
  split at h
  · simp at h
  · next ch rest start =>
    split at h
    · next hclose =>
      obtain ⟨rfl, rfl⟩ := Prod.mk.inj (Except.ok.inj h)
      exact ⟨.close (hclose ▸ start), rfl⟩
    · next hclose =>
      split at h
      · next hfirst =>
        obtain ⟨rfl, rfl⟩ := Prod.mk.inj (Except.ok.inj h)
        exact ⟨hfirst ▸ .first start hclose, rfl⟩
      · next hfirst =>
        obtain rfl := Bool.eq_false_iff.2 hfirst
        split at h
        · next hcomma =>
          subst hcomma
          split at h
          · simp at h
          · split at h
            · simp at h
            · obtain ⟨rfl, rfl⟩ := Prod.mk.inj (Except.ok.inj h)
              exact ⟨.later start, rfl⟩
        · simp at h

/-- What stands next inside an object: its end, its first key, or a later one behind a comma. -/
inductive NextKey : Bool → Cursor → Option Cursor → Prop where
  | close {first : Bool} {c : Cursor} {rest : List Char} (start : c.skipSpace.rest = '\x7d' :: rest) :
      NextKey first c none
  | first {c : Cursor} {rest : List Char} (start : c.skipSpace.rest = '"' :: rest) :
      NextKey true c (some ⟨c.skipSpace.place.after '"', rest⟩)
  | later {c d : Cursor} {rest rest' : List Char} (start : c.skipSpace.rest = ',' :: rest)
      (behind : d = Cursor.skipSpace ⟨c.skipSpace.place.after ',', rest⟩)
      (quote : d.rest = '"' :: rest') : NextKey false c (some ⟨d.place.after '"', rest'⟩)

theorem nextKey_spec {first : Bool} {c e : Cursor} {next : Option Cursor}
    (h : nextKey first c = .ok (next, e)) : NextKey first c next ∧ e = next.getD c.skipSpace := by
  unfold nextKey at h
  simp only at h
  split at h
  · simp at h
  · next ch rest start =>
    split at h
    · next hclose =>
      obtain ⟨rfl, rfl⟩ := Prod.mk.inj (Except.ok.inj h)
      exact ⟨.close (hclose ▸ start), rfl⟩
    · split at h
      · next hfirst =>
        split at h
        · next hquote =>
          subst hquote
          obtain ⟨rfl, rfl⟩ := Prod.mk.inj (Except.ok.inj h)
          exact ⟨hfirst ▸ .first start, rfl⟩
        · simp at h
      · next hfirst =>
        obtain rfl := Bool.eq_false_iff.2 hfirst
        split at h
        · next hcomma =>
          subst hcomma
          split at h
          · simp at h
          · next x rest' behind =>
            split at h
            · next hquote =>
              subst hquote
              obtain ⟨rfl, rfl⟩ := Prod.mk.inj (Except.ok.inj h)
              exact ⟨.later start rfl behind, rfl⟩
            · simp at h
        · simp at h

theorem eq_of_endArray {c d : Cursor} (h : endArray c = .ok d) :
    ∃ rest, c.skipSpace.rest = ']' :: rest ∧ d = ⟨c.skipSpace.place.after ']', rest⟩ := by
  unfold endArray at h
  simp only at h
  split at h
  · simp at h
  · next ch rest start =>
    split at h
    · next hch => exact ⟨rest, hch ▸ start, hch ▸ (Except.ok.inj h).symm⟩
    · split at h <;> simp at h

theorem eq_of_endObject {c d : Cursor} (h : endObject c = .ok d) :
    ∃ rest, c.skipSpace.rest = '\x7d' :: rest ∧ d = ⟨c.skipSpace.place.after '\x7d', rest⟩ := by
  unfold endObject at h
  simp only at h
  split at h
  · simp at h
  · next ch rest start =>
    split at h
    · next hch => exact ⟨rest, hch ▸ start, hch ▸ (Except.ok.inj h).symm⟩
    · simp at h

/-! ## Runs -/

namespace SkipState

/-- The mode inside brackets: behind the bracket that opens them, or behind a value. -/
def inside (first : Bool) : SkipMode :=
  if first then .opened else .behind

theorem run_behind_nil (c : Cursor) : run ⟨.behind, [], c⟩ = .ok c := by
  rw [run]

/-- A run goes on behind a step in front of a value. -/
theorem run_value {bs : List Bracket} {c : Cursor} {s : SkipState} (step : stepValue bs c = .ok s)
    (lighter : s.weight < 2 * c.rest.length) : run ⟨.value, bs, c⟩ = run s := by
  have hlighter : s.weight < weight ⟨.value, bs, c⟩ := by simpa [weight] using lighter
  rw [run]
  simp only [step, dif_pos hlighter]

/-- A run goes on behind a step inside brackets. -/
theorem run_inside {first : Bool} {b : Bracket} {bs : List Bracket} {c : Cursor} {s : SkipState}
    (step : stepInside (!first) b bs c = .ok s)
    (lighter : s.weight < 2 * c.rest.length + if first then 1 else 0) :
    run ⟨inside first, b :: bs, c⟩ = run s := by
  have hlighter : s.weight < weight ⟨inside first, b :: bs, c⟩ := by
    cases first <;> simpa [weight, inside] using lighter
  rw [run]
  cases first with
  | true =>
    have hstep : stepInside (SkipMode.opened == .behind) b bs c = .ok s := step
    simp only [inside, if_true] at hlighter ⊢
    simp only [hstep, dif_pos hlighter]
  | false =>
    have hstep : stepInside (SkipMode.behind == .behind) b bs c = .ok s := step
    simp only [inside, Bool.false_eq_true, if_false] at hlighter ⊢
    simp only [hstep, dif_pos hlighter]

end SkipState

open SkipState

/-- A run from `c` in front of a value comes to `d` behind it, whatever brackets are open. -/
def Skips (c d : Cursor) : Prop :=
  ∀ bs, run ⟨.value, bs, c⟩ = run ⟨.behind, bs, d⟩

/-- The end of what stands inside brackets. -/
theorem run_close {first : Bool} {b : Bracket} {bs : List Bracket} {c : Cursor} {rest : List Char}
    (start : c.skipSpace.rest = b.close :: rest) :
    run ⟨inside first, b :: bs, c⟩ = run ⟨.behind, bs, ⟨c.skipSpace.place.after b.close, rest⟩⟩ := by
  have hspace := c.length_skipSpace
  rw [start, List.length_cons] at hspace
  apply run_inside
  · simp only [stepInside, start, if_true]
  · simp only [weight, reduceCtorEq, if_false]
    omega

theorem skips_scalar {c d : Cursor} {ch : Char} {rest : List Char} {s : Scalar}
    (start : c.skipSpace.rest = ch :: rest) (noArray : ch ≠ '[') (noObject : ch ≠ '\x7b')
    (own : readScalar ch c.skipSpace ⟨c.skipSpace.place.after ch, rest⟩ = .ok (s, d)) : Skips c d := by
  intro bs
  obtain ⟨hskip, hlt⟩ := (readScalar_ok_iff.1 own).skip start
  have hspace := c.length_skipSpace
  apply run_value
  · simp only [stepValue, start, Bracket.ofOpen?, noArray, noObject, if_false, hskip, Except.ok_bind]
    rfl
  · simp only [weight, reduceCtorEq, if_false]
    omega

/-- An opening bracket is passed, and stands on the stack. -/
theorem run_open {b : Bracket} {bs : List Bracket} {c : Cursor} {ch : Char} {rest : List Char}
    (start : c.skipSpace.rest = ch :: rest) (bracket : Bracket.ofOpen? ch = some b) :
    run ⟨.value, bs, c⟩ = run ⟨inside true, b :: bs, ⟨c.skipSpace.place.after ch, rest⟩⟩ := by
  have hspace := c.length_skipSpace
  rw [start, List.length_cons] at hspace
  apply run_value
  · simp only [stepValue, start, bracket]
    rfl
  · simp only [weight, inside, if_true]
    omega

section

variable {value : Cursor → Except Fault (Json × Cursor)} {bs : List Bracket}

/-- What stands inside an array is passed over item by item. -/
theorem run_items (skips : ∀ c v d, value c = .ok (v, d) → Skips c d)
    (space : ∀ c : Cursor, value c.skipSpace = value c) {first : Bool} {c e d : Cursor} {xs : List Json}
    (h : readItems value first c = .ok (xs, e)) (close : endArray e = .ok d) :
    run ⟨inside first, .array :: bs, c⟩ = run ⟨.behind, bs, d⟩ := by
  have hspace := c.length_skipSpace
  rw [readItems] at h
  obtain ⟨⟨next, c'⟩, hnext, h⟩ := Except.bind_ok_iff.1 h
  obtain ⟨hshape, hcursor⟩ := nextItem_spec hnext
  cases next with
  | none =>
    obtain ⟨-, rfl⟩ := Prod.mk.inj (Except.ok.inj h)
    obtain ⟨rest, start, rfl⟩ := eq_of_endArray close
    obtain rfl : c' = c.skipSpace := hcursor
    rw [c.skipSpace_skipSpace] at start ⊢
    exact run_close (b := .array) start
  | some item =>
    obtain ⟨⟨x, e₁⟩, hitem, h⟩ := Except.bind_ok_iff.1 h
    simp only at h
    split at h
    · next hlt =>
      obtain ⟨⟨ys, e₂⟩, hlater, h⟩ := Except.bind_ok_iff.1 h
      obtain ⟨-, rfl⟩ := Prod.mk.inj (Except.ok.inj h)
      have hrest : run ⟨inside false, .array :: bs, e₁⟩ = run ⟨.behind, bs, d⟩ :=
        run_items skips space hlater close
      -- The skipper goes to the value behind a comma, the reader to where it starts.
      cases hshape with
      | @first _ ch rest start noClose =>
        have hstep : run ⟨inside true, .array :: bs, c⟩ = run ⟨.value, .array :: bs, c.skipSpace⟩ := by
          apply run_inside
          · simp only [stepInside, start, Bracket.close, noClose, if_false]
            rfl
          · simp only [weight, reduceCtorEq, if_false, if_true]
            omega
        rw [hstep, skips _ _ _ hitem]
        exact hrest
      | @later _ rest start =>
        rw [start, List.length_cons] at hspace
        have hstep : run ⟨inside false, .array :: bs, c⟩
            = run ⟨.value, .array :: bs, ⟨c.skipSpace.place.after ',', rest⟩⟩ := by
          apply run_inside
          · simp only [stepInside, start, Bracket.close, Char.reduceEq, if_false]
            rfl
          · simp only [weight, reduceCtorEq, if_false, Bool.false_eq_true]
            omega
        rw [space] at hitem
        rw [hstep, skips _ _ _ hitem]
        exact hrest
    · simp at h
termination_by c.rest.length

theorem length_of_readColon {c d : Cursor} (h : readColon c = .ok d) : d.rest.length < c.rest.length := by
  have hspace := c.length_skipSpace
  unfold readColon at h
  simp only at h
  split at h
  · simp at h
  · next ch rest start =>
    split at h
    · obtain rfl := Except.ok.inj h
      rw [start, List.length_cons] at hspace
      exact hspace
    · simp at h

/-- A key is passed over, with the colon behind it. -/
theorem skipKey_of_readString {c d e : Cursor} {rest : List Char} {key : String}
    (quote : c.skipSpace.rest = '"' :: rest)
    (own : readString ⟨c.skipSpace.place.after '"', rest⟩ = .ok (key, d)) (colon : readColon d = .ok e) :
    skipKey .object c = .ok e ∧ e.rest.length < c.rest.length := by
  obtain ⟨hskip, (hlt : d.rest.length < rest.length)⟩ := skipString_of_readString own
  have hcolon := length_of_readColon colon
  have hspace := c.length_skipSpace
  rw [quote, List.length_cons] at hspace
  refine ⟨?_, by omega⟩
  simp only [skipKey, quote, if_true, hskip, Except.ok_bind, colon]

/-- What stands inside an object is passed over member by member. -/
theorem run_members (skips : ∀ c v d, value c = .ok (v, d) → Skips c d) {first : Bool} {c e d : Cursor}
    {ms : List (String × Json)} (h : readMembers value first c = .ok (ms, e))
    (close : endObject e = .ok d) :
    run ⟨inside first, .object :: bs, c⟩ = run ⟨.behind, bs, d⟩ := by
  have hspace := c.length_skipSpace
  rw [readMembers] at h
  obtain ⟨⟨next, c'⟩, hnext, h⟩ := Except.bind_ok_iff.1 h
  obtain ⟨hshape, hcursor⟩ := nextKey_spec hnext
  cases next with
  | none =>
    obtain ⟨-, rfl⟩ := Prod.mk.inj (Except.ok.inj h)
    obtain ⟨rest, start, rfl⟩ := eq_of_endObject close
    obtain rfl : c' = c.skipSpace := hcursor
    rw [c.skipSpace_skipSpace] at start ⊢
    exact run_close (b := .object) start
  | some start =>
    obtain ⟨⟨key, e₁⟩, hkey, h⟩ := Except.bind_ok_iff.1 h
    obtain ⟨e₂, hcolon, h⟩ := Except.bind_ok_iff.1 h
    obtain ⟨⟨x, e₃⟩, hvalue, h⟩ := Except.bind_ok_iff.1 h
    simp only at h
    split at h
    · next hlt =>
      obtain ⟨⟨ys, e₄⟩, hlater, h⟩ := Except.bind_ok_iff.1 h
      obtain ⟨-, rfl⟩ := Prod.mk.inj (Except.ok.inj h)
      have hrest : run ⟨inside false, .object :: bs, e₃⟩ = run ⟨.behind, bs, d⟩ :=
        run_members skips hlater close
      have hstep : run ⟨inside first, .object :: bs, c⟩ = run ⟨.value, .object :: bs, e₂⟩ := by
        cases hshape with
        | @first _ rest start =>
          have hsame := c.skipSpace_skipSpace
          obtain ⟨hskip, hshort⟩ := skipKey_of_readString (c := c.skipSpace) (by rw [hsame, start])
            (by rw [hsame]; exact hkey) hcolon
          apply run_inside
          · simp only [stepInside, start, Bracket.close, Char.reduceEq, if_false, Bool.not_true,
              Bool.not_false, if_true, hskip]
            rfl
          · simp only [weight, reduceCtorEq, if_false, if_true]
            omega
        | @later _ d' rest rest' start behind quote =>
          subst behind
          obtain ⟨hskip, hshort⟩ := skipKey_of_readString quote hkey hcolon
          rw [start, List.length_cons] at hspace
          apply run_inside
          · simp only [stepInside, start, Bracket.close, Char.reduceEq, if_false, Bool.not_true,
              Bool.not_false, if_true, hskip, Bool.false_eq_true]
            rfl
          · simp only [weight, reduceCtorEq, if_false, Bool.false_eq_true]
            simp only at hshort
            omega
      rw [hstep, skips _ _ _ hvalue]
      exact hrest
    · simp at h
termination_by c.rest.length

end

/-! ## Values -/

theorem readValue_skipSpace (levels : Nat) (c : Cursor) :
    readValue levels c.skipSpace = readValue levels c := by
  cases levels <;> simp only [readValue, c.skipSpace_skipSpace]

theorem skips_of_readValue {levels : Nat} {c d : Cursor} {v : Json}
    (h : readValue levels c = .ok (v, d)) : Skips c d := by
  induction levels generalizing c d v with
  | zero =>
    cases valueRead_of_readValue h with
    | scalar start noArray noObject own => exact skips_scalar start noArray noObject own
  | succ levels ih =>
    cases valueRead_of_readValue h with
    | array start inside close =>
      intro bs
      rw [run_open (b := .array) start rfl]
      exact run_items (fun c v d => ih) (readValue_skipSpace levels) inside close
    | object start inside close =>
      intro bs
      rw [run_open (b := .object) start rfl]
      exact run_members (fun c v d => ih) inside close
    | scalar start noArray noObject own => exact skips_scalar start noArray noObject own

/-- **What is read can be passed over**, and ends at the same place. -/
theorem skipValue_of_readValue {levels : Nat} {c d : Cursor} {v : Json}
    (h : readValue levels c = .ok (v, d)) : skipValue c = .ok d := by
  rw [skipValue, skips_of_readValue h [], run_behind_nil]

/-! ## Values become shorter -/

theorem NextItem.length_le {first : Bool} {c p : Cursor} (h : NextItem first c (some p)) :
    p.rest.length ≤ c.rest.length := by
  have hspace := c.length_skipSpace
  cases h with
  | first => exact hspace
  | @later _ rest start =>
    have hinner := Cursor.length_skipSpace ⟨c.skipSpace.place.after ',', rest⟩
    rw [start, List.length_cons] at hspace
    exact hinner.trans ((Nat.le_succ _).trans hspace)

section

variable {α : Type} {value : Cursor → Except Fault (α × Cursor)}

theorem length_of_readItems {first : Bool} {c d : Cursor} {xs : List α}
    (h : readItems value first c = .ok (xs, d)) :
    d.rest.length ≤ c.rest.length := by
  rw [readItems] at h
  obtain ⟨⟨next, e⟩, hnext, h⟩ := Except.bind_ok_iff.1 h
  cases next with
  | none =>
    obtain ⟨-, rfl⟩ := Prod.mk.inj (Except.ok.inj h)
    obtain rfl : e = c.skipSpace := (nextItem_spec hnext).2
    exact c.length_skipSpace
  | some start =>
    obtain ⟨⟨x, e⟩, -, h⟩ := Except.bind_ok_iff.1 h
    simp only at h
    split at h
    · next hshort =>
      obtain ⟨⟨ys, e'⟩, hlater, h⟩ := Except.bind_ok_iff.1 h
      obtain ⟨-, rfl⟩ := Prod.mk.inj (Except.ok.inj h)
      exact (length_of_readItems hlater).trans (Nat.le_of_lt hshort)
    · simp at h
termination_by c.rest.length

theorem length_of_readMembers {first : Bool} {c d : Cursor} {ms : List (String × α)}
    (h : readMembers value first c = .ok (ms, d)) :
    d.rest.length ≤ c.rest.length := by
  rw [readMembers] at h
  obtain ⟨⟨next, e⟩, hnext, h⟩ := Except.bind_ok_iff.1 h
  cases next with
  | none =>
    obtain ⟨-, rfl⟩ := Prod.mk.inj (Except.ok.inj h)
    obtain rfl : e = c.skipSpace := (nextKey_spec hnext).2
    exact c.length_skipSpace
  | some start =>
    obtain ⟨⟨key, e⟩, -, h⟩ := Except.bind_ok_iff.1 h
    obtain ⟨start, -, h⟩ := Except.bind_ok_iff.1 h
    obtain ⟨⟨x, e⟩, -, h⟩ := Except.bind_ok_iff.1 h
    simp only at h
    split at h
    · next hshort =>
      obtain ⟨⟨ys, e'⟩, hlater, h⟩ := Except.bind_ok_iff.1 h
      obtain ⟨-, rfl⟩ := Prod.mk.inj (Except.ok.inj h)
      exact (length_of_readMembers hlater).trans (Nat.le_of_lt hshort)
    · simp at h
termination_by c.rest.length

end

/-- What is read takes a character at least. -/
theorem length_of_readValue {levels : Nat} {c d : Cursor} {v : Json}
    (h : readValue levels c = .ok (v, d)) : d.rest.length < c.rest.length := by
  have hspace := c.length_skipSpace
  cases valueRead_of_readValue h with
  | @array _ _ e _ rest _ start inside close =>
    have hinside : e.rest.length ≤ rest.length := length_of_readItems inside
    have hend := e.length_skipSpace
    obtain ⟨rest', hclose, rfl⟩ := eq_of_endArray close
    rw [start, List.length_cons] at hspace
    rw [hclose, List.length_cons] at hend
    show rest'.length < c.rest.length
    omega
  | @object _ _ e _ rest _ start inside close =>
    have hinside : e.rest.length ≤ rest.length := length_of_readMembers inside
    have hend := e.length_skipSpace
    obtain ⟨rest', hclose, rfl⟩ := eq_of_endObject close
    rw [start, List.length_cons] at hspace
    rw [hclose, List.length_cons] at hend
    show rest'.length < c.rest.length
    omega
  | scalar start noArray noObject own =>
    exact ((readScalar_ok_iff.1 own).skip start).2.trans_le hspace

end TagQuery.Json
