import TagQuery.Proofs.Number.Literal
import TagQuery.Settings

/-!
# Saved settings are read back

The file that keeps settings has a line for the version, a header and a line for each switch that is
set.  Each line is read as one statement, whatever stands behind it, and the statements make up the
settings again:

    readItem maxDepth (value ++ rest) = some (x, rest) →
      readStatement (line key value ++ rest) = some (.entry ⟨[], key⟩ x, rest)        (readStatement_line)
    s.version ≤ 4294967295 → Settings.ofText? s.text = some s                         (ofText_text)
-/

namespace TagQuery

open Text Number

namespace Toml

/-! ## Characters that start a line -/

theorem ne_of_isBareChar {c d : Char} (h : isBareChar c = true) (hd : isBareChar d = false) : c ≠ d := by
  rintro rfl
  rw [h] at hd
  cases hd

theorem isGap_of_isBareChar {c : Char} (h : isBareChar c = true) : isGap c = false := by
  have hspace : c ≠ ' ' := ne_of_isBareChar h rfl
  have htab : c ≠ '\t' := ne_of_isBareChar h rfl
  simp [isGap, hspace, htab]

theorem skipGap_stop {cs : List Char} (stop : StopsAt isGap cs) : skipGap cs = cs :=
  stop.dropWhile_eq

theorem readBreak_eq_none {c : Char} (hn : c ≠ '\n') (hr : c ≠ '\r') (cs : List Char) :
    readBreak (c :: cs) = none := by
  unfold readBreak
  split
  · next h => exact absurd (List.cons.inj h).1 hn
  · next h => exact absurd (List.cons.inj h).1 hr
  · rfl

/-- A line that starts with something is not passed over. -/
theorem skipLines_stop {c : Char} (hgap : isGap c = false) (hmark : c ≠ '#') (hn : c ≠ '\n') (hr : c ≠ '\r')
    (cs : List Char) : skipLines (c :: cs) = c :: cs := by
  have hskip : skipComment (skipGap (c :: cs)) = c :: cs := by
    rw [skipGap_stop (stopsAt_cons hgap)]
    unfold skipComment
    split
    · next h => exact absurd (List.cons.inj h).1 hmark
    · rfl
  rw [skipLines]
  simp only [hskip, readBreak_eq_none hn hr]

/-- A statement is read at the start of the first line that is not passed over. -/
theorem readStatements_cons {c : Char} {cs start rest : List Char} {s : Statement}
    (hskip : skipLines cs = c :: start) (hs : readStatement (c :: start) = some (s, rest))
    (shorter : rest.length < cs.length) : readStatements cs = (readStatements rest).map (s :: ·) := by
  rw [readStatements, hskip]
  simp only [hs, Option.bind_eq_bind, Option.bind_some, dif_pos shorter]
  cases readStatements rest <;> rfl

theorem endLine_break (rest : List Char) : endLine ('\n' :: rest) = some rest := by
  rfl

/-! ## Lines -/

theorem readKey_bare {key rest : List Char} (hne : key ≠ []) (bare : ∀ c ∈ key, isBareChar c = true)
    (stop : StopsAt isBareChar rest) (point : (skipGap rest).head? ≠ some '.') :
    readKey (key ++ rest) = some (⟨[], String.ofList key⟩, skipGap rest) := by
  obtain ⟨c, cs, rfl⟩ := List.exists_cons_of_ne_nil hne
  have hc := bare c (by simp)
  have hgap : skipGap ((c :: cs) ++ rest) = (c :: cs) ++ rest :=
    skipGap_stop (stopsAt_cons (isGap_of_isBareChar hc))
  have hpart : readKeyPart ((c :: cs) ++ rest) = some (String.ofList (c :: cs), rest) := by
    unfold readKeyPart
    split
    · next h => exact absurd (List.cons.inj h).1 (ne_of_isBareChar hc rfl)
    · next h => exact absurd (List.cons.inj h).1 (ne_of_isBareChar hc rfl)
    · rw [takeWhile_append_stop bare stop, dropWhile_append_stop bare stop]
      rfl
  have hparts : readKeyParts ((c :: cs) ++ rest) = some ([String.ofList (c :: cs)], skipGap rest) := by
    rw [readKeyParts, hgap, hpart]
    dsimp only [Option.bind_eq_bind, Option.bind_some]
    split
    · next h =>
      rw [h] at point
      exact absurd rfl point
    · rfl
  rw [readKey, hparts]
  rfl

/-- A line of the document that keeps an item under a key. -/
def line (key value : List Char) : List Char :=
  key ++ ' ' :: '=' :: ' ' :: value ++ ['\n']

/-- A line is read whatever stands behind it. -/
theorem readStatement_line {key value rest : List Char} {x : Item} (hne : key ≠ [])
    (bare : ∀ c ∈ key, isBareChar c = true) (stop : StopsAt isGap (value ++ '\n' :: rest))
    (hvalue : readItem maxDepth (value ++ '\n' :: rest) = some (x, '\n' :: rest)) :
    readStatement (line key value ++ rest) = some (.entry ⟨[], String.ofList key⟩ x, rest) := by
  have htext : line key value ++ rest = key ++ ' ' :: '=' :: ' ' :: (value ++ '\n' :: rest) := by
    simp [line]
  have hentry : readEntry (readItem maxDepth) (line key value ++ rest)
      = some ((⟨[], String.ofList key⟩, x), '\n' :: rest) := by
    have hkey : readKey (key ++ ' ' :: '=' :: ' ' :: (value ++ '\n' :: rest))
        = some (⟨[], String.ofList key⟩, '=' :: ' ' :: (value ++ '\n' :: rest)) :=
      readKey_bare hne bare (stopsAt_cons rfl) (by simp [skipGap, isGap])
    have hgap : skipGap (' ' :: (value ++ '\n' :: rest)) = value ++ '\n' :: rest :=
      skipGap_stop stop
    rw [readEntry, htext, hkey]
    simp only [Option.bind_eq_bind, Option.bind_some, readWord, if_true, hgap, hvalue]
    rfl
  obtain ⟨c, cs, rfl⟩ := List.exists_cons_of_ne_nil hne
  have hc : c ≠ '[' := ne_of_isBareChar (bare c (by simp)) rfl
  unfold readStatement
  split
  · next h => exact absurd (List.cons.inj h).1 hc
  · next h => exact absurd (List.cons.inj h).1 hc
  · rw [hentry]
    rfl

/-- A line is the first statement of a document that starts with it. -/
theorem readStatements_line {key value rest : List Char} {x : Item} (hne : key ≠ [])
    (bare : ∀ c ∈ key, isBareChar c = true) (stop : StopsAt isGap (value ++ '\n' :: rest))
    (hvalue : readItem maxDepth (value ++ '\n' :: rest) = some (x, '\n' :: rest)) :
    readStatements (line key value ++ rest)
      = (readStatements rest).map (.entry ⟨[], String.ofList key⟩ x :: ·) := by
  have hs := readStatement_line hne bare stop hvalue
  obtain ⟨c, cs, rfl⟩ := List.exists_cons_of_ne_nil hne
  have hc := bare c (by simp)
  exact readStatements_cons
    (skipLines_stop (isGap_of_isBareChar hc) (ne_of_isBareChar hc rfl) (ne_of_isBareChar hc rfl)
      (ne_of_isBareChar hc rfl) _)
    hs (by simp [line]; omega)

/-! ## Items -/

theorem readItem_boolean (b : Bool) (rest : List Char) :
    readItem maxDepth ((booleanText b).toList ++ rest) = some (.boolean b, rest) := by
  cases b <;> simp [booleanText, readItem, readScalar, readString, readWord]

/-- A number of fixed length is cut off the digits. -/
theorem readFixed_behind {ds rest cs : List Char} {k n : Nat}
    (h : readFixed k (ds ++ '\n' :: rest) = some (n, cs)) : cs = ds.drop k ++ '\n' :: rest := by
  unfold readFixed at h
  dsimp only at h
  split at h
  · next hall =>
    obtain ⟨-, rfl⟩ := Prod.mk.inj (Option.some.inj h)
    have hk : k ≤ ds.length := by
      by_contra hlt
      have hmem : '\n' ∈ (ds ++ '\n' :: rest).take k := by
        rw [List.take_append, List.mem_append]
        obtain ⟨j, hj⟩ := Nat.exists_eq_add_of_lt (Nat.not_le.1 hlt)
        exact .inr (by rw [show k - ds.length = j + 1 by omega]; simp)
      exact absurd (List.all_eq_true.1 hall.2 _ hmem) (by decide)
    rw [List.drop_append_of_le_length hk]
  · cases h

section

variable {ds rest : List Char} (digits : ∀ c ∈ ds, isDigit c = true)

include digits

/-- What follows some digits of a number is another digit, or the end of the line. -/
theorem head_behind {c : Char} {cs : List Char} (h : ds ++ '\n' :: rest = c :: cs) :
    isDigit c = true ∨ c = '\n' := by
  cases ds with
  | nil => exact .inr (List.cons.inj h).1.symm
  | cons d ds => exact .inl ((List.cons.inj h).1 ▸ digits d (by simp))

theorem readWord_behind {w : Char} (hdigit : isDigit w = false) (hbreak : w ≠ '\n') :
    readWord [w] (ds ++ '\n' :: rest) = none := by
  cases h : ds ++ '\n' :: rest with
  | nil => simp at h
  | cons c cs =>
    have hne : c ≠ w := by
      rintro rfl
      rcases head_behind digits h with hc | hc
      · rw [hdigit] at hc
        cases hc
      · exact hbreak hc
    simp [readWord, hne]

theorem readDigits_append (due : Bool) (some : due = true → ds ≠ []) :
    readDigits isDigit due (ds ++ '\n' :: rest) = .some (ds, '\n' :: rest) := by
  induction ds generalizing due with
  | nil =>
    cases due with
    | true => exact absurd rfl (some rfl)
    | false => rfl
  | cons d ds ih =>
    have hd := digits d (by simp)
    have hds := ih (fun c hc => digits c (by simp [hc])) false (by simp)
    simp [readDigits, hd, hds]

/-- No moment starts with a number that is alone on its line. -/
theorem skipMoment_digits : skipMoment (ds ++ '\n' :: rest) = none := by
  have hdate : readDate (ds ++ '\n' :: rest) = none := by
    unfold readDate
    cases hyear : readFixed 4 (ds ++ '\n' :: rest) with
    | none => rfl
    | some year =>
      obtain ⟨n, cs⟩ := year
      have later : ∀ c ∈ ds.drop 4, isDigit c = true := fun c hc => digits c (List.mem_of_mem_drop hc)
      simp [readFixed_behind hyear, readWord_behind later (w := '-') rfl (by decide)]
  have htime : readTime (ds ++ '\n' :: rest) = none := by
    unfold readTime readPart
    cases hhour : readFixed 2 (ds ++ '\n' :: rest) with
    | none => rfl
    | some hour =>
      obtain ⟨n, cs⟩ := hour
      have later : ∀ c ∈ ds.drop 2, isDigit c = true := fun c hc => digits c (List.mem_of_mem_drop hc)
      simp only [Option.bind_eq_bind, Option.bind_some, readFixed_behind hhour]
      split
      · simp [readWord_behind later (w := ':') rfl (by decide)]
      · rfl
  rw [skipMoment, hdate, htime]

end

theorem readWhole_digitsOf (n : Nat) (rest : List Char) :
    readWhole (Number.digitsOf n ++ '\n' :: rest) = some (Number.digitsOf n, '\n' :: rest) := by
  rcases Nat.eq_zero_or_pos n with rfl | hpos
  · rfl
  · have hhead := Number.head_digitsOf hpos
    have hrow : readDigits isDigit true (Number.digitsOf n ++ '\n' :: rest) = _ :=
      readDigits_append (Number.isDigit_digitsOf n) true fun _ => Number.digitsOf_ne_nil n
    obtain ⟨d, ds, hn⟩ := List.exists_cons_of_ne_nil (Number.digitsOf_ne_nil n)
    rw [hn] at hhead hrow ⊢
    unfold readWhole
    split
    · next h => exact absurd (congrArg some (List.cons.inj h).1) hhead
    · exact hrow

section

variable {d : Char} (digit : isDigit d = true) (cs : List Char)

include digit

theorem readSign_digit : readSign (d :: cs) = (false, d :: cs) := by
  unfold readSign
  split
  · next h => exact absurd (List.cons.inj h).1 (ne_of_isDigit digit rfl)
  · next h => exact absurd (List.cons.inj h).1 (ne_of_isDigit digit rfl)
  · rfl

theorem readWord_digit {w : Char} (hw : isDigit w = false) (ws : List Char) :
    readWord (w :: ws) (d :: cs) = none :=
  if_neg (ne_of_isDigit digit hw)

theorem readSpecial_digit : readSpecial (d :: cs) = none := by
  have hinf : readWord "inf".toList (d :: cs) = none := readWord_digit digit cs rfl _
  have hnan : readWord "nan".toList (d :: cs) = none := readWord_digit digit cs rfl _
  simp only [readSpecial, readSign_digit digit, hinf, hnan]
  rfl

theorem readString_digit : readString (d :: cs) = none := by
  unfold readString
  split
  · next h => exact absurd (List.cons.inj h).1 (ne_of_isDigit digit rfl)
  · next h => exact absurd (List.cons.inj h).1 (ne_of_isDigit digit rfl)
  · next h => exact absurd (List.cons.inj h).1 (ne_of_isDigit digit rfl)
  · next h => exact absurd (List.cons.inj h).1 (ne_of_isDigit digit rfl)
  · rfl

/-- What starts with a digit is an item if it is a number, but no moment. -/
theorem readItem_digit {levels : Nat} (hmoment : skipMoment (d :: cs) = none) :
    readItem levels (d :: cs) = readNumber (d :: cs) := by
  have htrue : readWord "true".toList (d :: cs) = none := readWord_digit digit cs rfl _
  have hfalse : readWord "false".toList (d :: cs) = none := readWord_digit digit cs rfl _
  have hscalar : readScalar (d :: cs) = readNumber (d :: cs) := by
    simp only [readScalar, readString_digit digit, htrue, hfalse, readMoment, hmoment, Option.map_none]
    rfl
  unfold readItem
  split
  · next h => exact absurd (List.cons.inj h).1 (ne_of_isDigit digit rfl)
  · next h => exact absurd (List.cons.inj h).1 (ne_of_isDigit digit rfl)
  · exact hscalar

end

/-- A count at the end of its line is read as an integer. -/
theorem readItem_count {n : Nat} (h : n ≤ 4294967295) (rest : List Char) :
    readItem maxDepth (Number.digitsOf n ++ '\n' :: rest) = some (.integer n, '\n' :: rest) := by
  have digits := Number.isDigit_digitsOf n
  have hmoment : skipMoment (Number.digitsOf n ++ '\n' :: rest) = none := skipMoment_digits digits
  have hwhole := readWhole_digitsOf n rest
  have hvalue := Number.valueOfDigits_digitsOf n
  have hfits : fitsInteger (n : Int) = true := by
    simp [fitsInteger]
    omega
  obtain ⟨d, ds, hn⟩ := List.exists_cons_of_ne_nil (Number.digitsOf_ne_nil n)
  rw [hn] at digits hwhole hmoment hvalue ⊢
  have hd := digits d (by simp)
  have hdecimal : readDecimal (d :: ds ++ '\n' :: rest) = some (.integer n, '\n' :: rest) := by
    have hsign : readSign (d :: ds ++ '\n' :: rest) = (false, d :: ds ++ '\n' :: rest) :=
      readSign_digit hd _
    have hexponent : readExponent ('\n' :: rest) = some (none, '\n' :: rest) := rfl
    simp only [readDecimal, hsign, hwhole, readFraction, Option.bind_eq_bind, Option.bind_some]
    simp [hexponent, hvalue, hfits]
  have hspecial : readSpecial (d :: ds ++ '\n' :: rest) = none := readSpecial_digit hd _
  have hitem : readItem maxDepth (d :: ds ++ '\n' :: rest) = readNumber (d :: ds ++ '\n' :: rest) :=
    readItem_digit hd _ hmoment
  rw [hitem]
  -- The mark of another base is no digit, and does not end the line.
  have based {c : Char} {cs : List Char} (hs : d :: ds ++ '\n' :: rest = '0' :: c :: cs) :
      isDigit c = true ∨ c = '\n' :=
    head_behind (fun c hc => digits c (by simp [hc])) (List.cons.inj hs).2
  unfold readNumber
  split
  · next hs => exact absurd (based hs) (by decide)
  · next hs => exact absurd (based hs) (by decide)
  · next hs => exact absurd (based hs) (by decide)
  · rw [hspecial, hdecimal]
    rfl

/-- The header of the table with the switches, behind an empty line. -/
theorem readStatements_output (rest : List Char) :
    readStatements ("\n[output]\n".toList ++ rest)
      = (readStatements rest).map (.table ⟨[], "output"⟩ :: ·) := by
  have hskip : skipLines ("\n[output]\n".toList ++ rest) = '[' :: ("output]\n".toList ++ rest) := by
    have hstop := skipLines_stop (c := '[') rfl (by decide) (by decide) (by decide)
      ("output]\n".toList ++ rest)
    rw [skipLines]
    simpa [skipGap, isGap, skipComment, readBreak] using hstop
  have hkey : readKey ("output".toList ++ "]\n".toList ++ rest)
      = some (⟨[], "output"⟩, "]\n".toList ++ rest) := by
    rw [List.append_assoc]
    exact readKey_bare (by simp) (List.all_eq_true.1 rfl) (stopsAt_cons rfl) (by simp [skipGap, isGap])
  have hs : readStatement ('[' :: ("output]\n".toList ++ rest)) = some (.table ⟨[], "output"⟩, rest) := by
    simp only [String.reduceToList, List.cons_append, List.nil_append] at hkey ⊢
    simp [readStatement, hkey, readWord, endLine_break]
  exact readStatements_cons hskip hs (by simp; omega)

end Toml

namespace Settings

open Toml

/-- The lines of the switches that are set. -/
def switchLines (s : Settings) : List Char :=
  s.members.flatMap fun m => line m.1.toList (booleanText m.2).toList

theorem toList_text (s : Settings) :
    s.text.toList
      = line "version".toList (digitsOf s.version) ++ ("\n[output]\n".toList ++ s.switchLines) := by
  simp [text, line, countText, switchLines, String.toList_join, List.flatMap_map]

theorem key_of_members {s : Settings} {m : String × Bool} (h : m ∈ s.members) :
    ∃ switch : Switch, m.1 = switch.key := by
  obtain ⟨switch, -, hm⟩ := List.mem_filterMap.1 h
  obtain ⟨state, -, rfl⟩ := Option.map_eq_some_iff.1 hm
  exact ⟨switch, rfl⟩

theorem readStatements_switchLines (s : Settings) :
    readStatements s.switchLines = some (s.members.map fun m => .entry ⟨[], m.1⟩ (.boolean m.2)) := by
  have keys : ∀ m ∈ s.members, ∃ switch : Switch, m.1 = switch.key := fun m hm => key_of_members hm
  unfold switchLines
  revert keys
  induction s.members with
  | nil =>
    intro _
    rw [List.flatMap_nil, readStatements]
    have hskip : skipLines [] = [] := by
      rw [skipLines]
      rfl
    rw [hskip]
    rfl
  | cons m ms ih =>
    intro keys
    obtain ⟨switch, hm⟩ := keys m (by simp)
    have hne : m.1.toList ≠ [] := by
      rw [hm]
      cases switch <;> simp [Switch.key]
    have bare : ∀ c ∈ m.1.toList, isBareChar c = true := by
      rw [hm]
      cases switch <;> exact List.all_eq_true.1 rfl
    rw [List.flatMap_cons, readStatements_line hne bare _ (readItem_boolean m.2 _),
      ih fun m hm => keys m (by simp [hm])]
    · simp
    · cases m.2 <;> exact stopsAt_cons rfl

/-- What is saved is read back. -/
theorem ofText_text {s : Settings} (h : s.version ≤ 4294967295) : Settings.ofText? s.text = some s := by
  have hstatements : readStatements s.text.toList
      = some (.entry ⟨[], "version"⟩ (.integer s.version) :: .table ⟨[], "output"⟩ ::
          s.members.map fun m => .entry ⟨[], m.1⟩ (.boolean m.2)) := by
    rw [toList_text, readStatements_line (by simp) (List.all_eq_true.1 rfl) _ (readItem_count h _),
      readStatements_output, readStatements_switchLines]
    · rfl
    · obtain ⟨d, ds, hn⟩ := List.exists_cons_of_ne_nil (digitsOf_ne_nil s.version)
      have hd := isDigit_digitsOf s.version
      rw [hn] at hd ⊢
      have hspace : d ≠ ' ' := ne_of_isDigit (hd d (by simp)) rfl
      have htab : d ≠ '\t' := ne_of_isDigit (hd d (by simp)) rfl
      exact stopsAt_cons (by simp [isGap, hspace, htab])
  have hmark : skipMark s.text.toList = s.text.toList := by
    rw [toList_text]
    rfl
  have hdocument : ∃ d, Document.ofText? s.text = some d ∧ d.entries = [("version", .integer s.version),
      ("output", .table .named (s.members.map fun m => (m.1, .boolean m.2)))] := by
    rw [Document.ofText?, hmark, hstatements]
    obtain ⟨version, color, prettyJson⟩ := s
    cases color <;> cases prettyJson <;> exact ⟨_, rfl, rfl⟩
  obtain ⟨d, hd, hentries⟩ := hdocument
  have hversion : versionOf? d.entries = some s.version := by
    rw [hentries]
    simp [versionOf?, h]
  have hstates : statesOf? d.entries = some (s.color, s.prettyJson) := by
    rw [hentries]
    obtain ⟨version, color, prettyJson⟩ := s
    cases color <;> cases prettyJson <;> rfl
  rw [ofText?, hd]
  simp [hversion, hstates]

theorem versionOf_le {es : Entries} {n : Nat} (h : versionOf? es = some n) : n ≤ 4294967295 := by
  unfold versionOf? at h
  split at h
  · cases h
    decide
  · split at h
    · next hbound =>
      cases h
      omega
    · cases h
  · cases h

/-- The version of settings in a file has 32 bits. -/
theorem version_le_of_ofText {text : String} {s : Settings} (h : Settings.ofText? text = some s) :
    s.version ≤ 4294967295 := by
  obtain ⟨d, -, h⟩ := Option.bind_eq_some_iff.1 h
  obtain ⟨states, -, h⟩ := Option.bind_eq_some_iff.1 h
  obtain ⟨version, hversion, h⟩ := Option.bind_eq_some_iff.1 h
  cases h
  exact versionOf_le hversion

end Settings

end TagQuery
