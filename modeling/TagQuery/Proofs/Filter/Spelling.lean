import TagQuery.Proofs.Filter.Numerals

/-!
# Spellings of tokens

How each token can be written, said without the scanner: words in any mix of ASCII case, strings in
either kind of quotes and with any of their characters behind a backslash, numbers in any text that
stands for them.  The scanner finds a spelling in front of any text that does not go on with it, and
finds nothing else:

    Spells t cs → Stops t rest → Scan.of (cs ++ rest) = .token t cs rest            (Scan.of_spells)
    Scan.of cs = .token t spelling rest → StopsAt isBlank cs →
      Spells t spelling ∧ Stops t rest                                              (Scan.spells_of)
-/

namespace TagQuery

open Text

/-! ## Spellings -/

/-- The characters between the quotes of a string: each one as it is or behind a backslash, the quote
and the backslash only so. -/
inductive Escaped (quote : Char) : List Char → List Char → Prop where
  | nil : Escaped quote [] []
  | plain {c : Char} {content inner : List Char} (hquote : c ≠ quote) (hslash : c ≠ '\\')
      (rest : Escaped quote content inner) : Escaped quote (c :: content) (c :: inner)
  | escaped (c : Char) {content inner : List Char} (rest : Escaped quote content inner) :
      Escaped quote (c :: content) ('\\' :: c :: inner)

namespace Token

/-- The word that a keyword, a boolean or an operator is, in upper case. -/
def word? : Token → Option String
  | .and => some "AND"
  | .or => some "OR"
  | .literal (.boolean true) => some "TRUE"
  | .literal (.boolean false) => some "FALSE"
  | .operator op => some op.name
  | _ => none

/-- The token ends only where a character that does not continue a word stands behind it. -/
def isOpenEnded : Token → Bool
  | .literal (.string _) | .openBracket | .closeBracket | .colon | .at => false
  | _ => true

end Token

/-- The ways to write a token. -/
inductive Spells : Token → List Char → Prop where
  | punctuation {c : Char} {t : Token} (h : Token.ofPunctuation? c = some t) : Spells t [c]
  | string {quote : Char} {content inner : List Char} (hquote : quote = '\'' ∨ quote = '"')
      (h : Escaped quote content inner) :
      Spells (.literal (.string (String.ofList content))) (quote :: (inner ++ [quote]))
  | number {n : Number} {cs : List Char} (h : Numeral.Denotes cs n) : Spells (.literal (.number n)) cs
  | word {t : Token} {w : String} {cs : List Char} (h : t.word? = some w)
      (same : sameWord cs w.toList = true) : Spells t cs
  | identifier {name : String} (word : isWord name.toList = true)
      (other : ∀ t w, Token.word? t = some w → sameWord name.toList w.toList = false) :
      Spells (.identifier name) name.toList

/-- What stands behind a token does not go on with it. -/
def Stops (t : Token) (rest : List Char) : Prop :=
  t.isOpenEnded = true → StopsAt continuesWord rest

/-! ## Letters of either case -/

/-- Only the letters from `a` to `z` have an upper case of their own. -/
theorem toUpper_eq_or_mem (c : Char) : c.toUpper = c ∨ c ∈ "abcdefghijklmnopqrstuvwxyz".toList := by
  unfold Char.toUpper
  split
  · next h =>
    right
    have hlow : 97 ≤ c.toNat := UInt32.le_iff_toNat_le.1 h.1
    have hup : c.toNat ≤ 122 := UInt32.le_iff_toNat_le.1 h.2
    rw [← Char.ofNat_toNat c]
    generalize c.toNat = n at hlow hup
    interval_cases n <;> decide
  · exact .inl rfl

/-- The case of a letter does not matter to where a word starts and where it ends. -/
theorem classes_toUpper (c : Char) :
    startsWord c.toUpper = startsWord c ∧ continuesWord c.toUpper = continuesWord c
      ∧ isBlank c.toUpper = isBlank c := by
  have all : "abcdefghijklmnopqrstuvwxyz".toList.all (fun d =>
      startsWord d.toUpper == startsWord d && continuesWord d.toUpper == continuesWord d
        && isBlank d.toUpper == isBlank d) = true := by decide
  rcases toUpper_eq_or_mem c with h | h
  · rw [h]
    exact ⟨rfl, rfl, rfl⟩
  · simpa [and_assoc] using List.all_eq_true.1 all c h

section

variable {v w cs : List Char}

theorem isWord_upper (cs : List Char) : isWord (upper cs) = isWord cs := by
  cases cs with
  | nil => rfl
  | cons c cs =>
    obtain ⟨hstart, -, hblank⟩ := classes_toUpper c
    have hall : (upper cs).all continuesWord = cs.all continuesWord := by
      rw [upper, List.all_map]
      congr 1
      funext d
      exact (classes_toUpper d).2.1
    show (startsWord c.toUpper && !isBlank c.toUpper && (upper cs).all continuesWord) = _
    rw [hstart, hblank, hall]
    rfl

theorem sameWord_congr (h : upper v = upper w) (u : List Char) : sameWord v u = sameWord w u := by
  rw [sameWord, sameWord, h]

/-- But for the names, the token of a word does not depend on the case of its letters. -/
theorem ofWord_congr (h : upper v = upper w) (hw : ∀ name, Token.ofWord w ≠ .identifier name) :
    Token.ofWord v = Token.ofWord w := by
  have hop : Operator.ofName? (String.ofList v) = Operator.ofName? (String.ofList w) := by
    simp only [Operator.ofName?, String.toList_ofList, h]
  unfold Token.ofWord at hw ⊢
  simp only [sameWord_congr h, hop]
  cases hname : Operator.ofName? (String.ofList w) with
  | some op => rfl
  | none =>
    simp only [hname] at hw
    split_ifs at hw ⊢ <;> first | rfl | exact absurd rfl (hw _)

end

/-! ## Words -/

section

variable {t : Token} {w : String} {cs : List Char}

/-- The word of a token is one, and is read as the token. -/
theorem of_word? (h : t.word? = some w) : isWord w.toList = true ∧ Token.ofWord w.toList = t := by
  unfold Token.word? at h
  split at h <;> simp only [Option.some.injEq, reduceCtorEq] at h <;> subst h
  · decide
  · decide
  · decide
  · decide
  · exact ⟨isWord_operator _, ofWord_operator _⟩

theorem not_identifier_of_word? (h : t.word? = some w) (name : String) : t ≠ .identifier name := by
  rintro rfl
  simp [Token.word?] at h

theorem ofWord_of_sameWord (h : t.word? = some w) (same : sameWord cs w.toList = true) :
    isWord cs = true ∧ Token.ofWord cs = t := by
  obtain ⟨hword, htoken⟩ := of_word? h
  rw [sameWord_iff] at same
  constructor
  · rw [← isWord_upper, same, isWord_upper, hword]
  · rw [ofWord_congr same (htoken ▸ not_identifier_of_word? h), htoken]

theorem upper_operator (op : Operator) : upper op.name.toList = op.name.toList := by
  cases op with
  | comparison op => cases op <;> decide
  | test op => cases op <;> decide

/-- Every word is that of a token, or else a name. -/
theorem ofWord_cases (cs : List Char) :
    (∃ w, (Token.ofWord cs).word? = some w ∧ sameWord cs w.toList = true)
      ∨ Token.ofWord cs = .identifier (String.ofList cs) := by
  have hupper : ∀ {v w : List Char}, upper v = upper w → sameWord cs v = true → sameWord cs w = true := by
    intro v w h hsame
    rw [sameWord_iff] at hsame ⊢
    rw [hsame, h]
  unfold Token.ofWord
  split_ifs with hand hor htrue hfalse
  · exact .inl ⟨"AND", rfl, hupper (by decide) hand⟩
  · exact .inl ⟨"OR", rfl, hupper (by decide) hor⟩
  · exact .inl ⟨"TRUE", rfl, hupper (by decide) htrue⟩
  · exact .inl ⟨"FALSE", rfl, hupper (by decide) hfalse⟩
  · split
    · next op hop =>
      have hname := List.find?_some hop
      rw [String.toList_ofList, beq_iff_eq] at hname
      exact .inl ⟨op.name, rfl, sameWord_iff.2 (by rw [upper_operator, hname])⟩
    · exact .inr rfl

/-- Any word is a spelling of the token that it is read as. -/
theorem spells_ofWord (hword : isWord cs = true) : Spells (Token.ofWord cs) cs := by
  rcases ofWord_cases cs with ⟨w, hw, hsame⟩ | hname
  · exact .word hw hsame
  · have hother : ∀ t w, Token.word? t = some w → sameWord cs w.toList = false := by
      intro t w hw
      by_contra hsame
      obtain ⟨-, htoken⟩ := ofWord_of_sameWord hw (by simpa using hsame)
      exact not_identifier_of_word? hw _ (htoken.symm.trans hname)
    have hlist : (String.ofList cs).toList = cs := String.toList_ofList
    have hspells : Spells (.identifier (String.ofList cs)) (String.ofList cs).toList :=
      .identifier (hlist.symm ▸ hword) (hlist.symm ▸ hother)
    rwa [hlist, ← hname] at hspells

/-- A word that is that of no token is a name. -/
theorem ofWord_of_other {name : String}
    (other : ∀ t w, Token.word? t = some w → sameWord name.toList w.toList = false) :
    Token.ofWord name.toList = .identifier name := by
  rcases ofWord_cases name.toList with ⟨w, hw, hsame⟩ | hname
  · simp [other _ w hw] at hsame
  · rwa [String.ofList_toList] at hname

/-- A name is written only as it is, and only if it is a plain one. -/
theorem spells_identifier_iff {name : String} :
    Spells (.identifier name) cs ↔ IsPlain name ∧ cs = name.toList := by
  constructor
  · intro h
    cases h with
    | punctuation hp =>
      unfold Token.ofPunctuation? at hp
      split at hp <;> simp at hp
    | word hw => exact absurd rfl (not_identifier_of_word? hw name)
    | identifier hword hother => exact ⟨⟨hword, ofWord_of_other hother⟩, rfl⟩
  · rintro ⟨⟨hword, htoken⟩, rfl⟩
    exact htoken ▸ spells_ofWord hword

end

/-! ## Strings -/

section

variable {quote : Char} {content inner cs spelling rest : List Char}

theorem Escaped.scanQuoted (h : Escaped quote content inner) (hquote : quote ≠ '\\') :
    scanQuoted quote (inner ++ quote :: rest) = some (content, inner ++ [quote], rest) := by
  induction h with
  | nil => exact scanQuoted_close
  | plain hc hslash _ ih =>
    rw [List.cons_append, scanQuoted_plain hc hslash, ih]
    rfl
  | escaped c _ ih =>
    rw [List.cons_append, List.cons_append, scanQuoted_escaped hquote, ih]
    rfl

theorem escaped_of_scanQuoted
    (h : TagQuery.scanQuoted quote cs = some (content, spelling, rest)) :
    ∃ inner, spelling = inner ++ [quote] ∧ Escaped quote content inner := by
  fun_induction TagQuery.scanQuoted quote cs generalizing content spelling rest with
  | case1 => simp at h
  | case2 cs =>
    simp only [Option.some.injEq, Prod.mk.injEq] at h
    obtain ⟨rfl, rfl, rfl⟩ := h
    exact ⟨[], rfl, .nil⟩
  | case3 => simp at h
  | case4 d ds hne ih =>
    obtain ⟨⟨p, s, r⟩, hp, he⟩ := Option.map_eq_some_iff.1 h
    simp only [Prod.mk.injEq] at he
    obtain ⟨rfl, rfl, rfl⟩ := he
    obtain ⟨inner, rfl, hinner⟩ := ih hp
    exact ⟨'\\' :: d :: inner, rfl, .escaped d hinner⟩
  | case5 c cs hc hslash ih =>
    obtain ⟨⟨p, s, r⟩, hp, he⟩ := Option.map_eq_some_iff.1 h
    simp only [Prod.mk.injEq] at he
    obtain ⟨rfl, rfl, rfl⟩ := he
    obtain ⟨inner, rfl, hinner⟩ := ih hp
    exact ⟨c :: inner, rfl, .plain hc hslash hinner⟩

end

/-! ## Scanning -/

theorem isOpenEnded_of_word? {t : Token} {w : String} (h : t.word? = some w) : t.isOpenEnded = true := by
  unfold Token.word? at h
  split at h <;> first | rfl | simp at h

theorem isOpenEnded_ofWord (cs : List Char) : (Token.ofWord cs).isOpenEnded = true := by
  rcases ofWord_cases cs with ⟨w, hw, -⟩ | hname
  · exact isOpenEnded_of_word? hw
  · rw [hname]
    rfl

theorem not_isOpenEnded_of_punctuation {c : Char} {t : Token} (h : Token.ofPunctuation? c = some t) :
    t.isOpenEnded = false := by
  unfold Token.ofPunctuation? at h
  split at h <;> first | (obtain rfl := Option.some.inj h; rfl) | simp at h

namespace Scan

variable {t : Token} {cs spelling rest : List Char}

/-- A quote starts a string, or nothing that can be read. -/
theorem of_quote {quote : Char} (hquote : quote = '\'' ∨ quote = '"') :
    Scan.of (quote :: cs) = match scanQuoted quote cs with
      | some (content, spelling, rest) =>
        .token (.literal (.string (String.ofList content))) (quote :: spelling) rest
      | none => .unterminated := by
  have hpunct : Token.ofPunctuation? quote = none := by rcases hquote with rfl | rfl <;> rfl
  cases hq : scanQuoted quote cs <;> simp [Scan.of, hpunct, hquote, hq]

/-- A token is found in front of any text that does not go on with it. -/
theorem of_spells (h : Spells t cs) (stop : Stops t rest) : Scan.of (cs ++ rest) = .token t cs rest := by
  cases h with
  | punctuation h => exact of_punctuation h rest
  | @string quote content inner hquote h =>
    have hslash : quote ≠ '\\' := by rcases hquote with rfl | rfl <;> decide
    have hinner : scanQuoted quote (inner ++ [quote] ++ rest) = some (content, inner ++ [quote], rest) := by
      rw [List.append_assoc]
      exact h.scanQuoted hslash
    rw [List.cons_append, of_quote hquote, hinner]
  | number h =>
    obtain ⟨l, form, rfl, hvalue⟩ := h.exists_literal
    exact of_literal form hvalue (stop rfl)
  | word hw same =>
    obtain ⟨hword, rfl⟩ := ofWord_of_sameWord hw same
    exact of_word hword (stop (isOpenEnded_ofWord cs))
  | identifier hword hother =>
    have hscan := of_word hword (stop rfl)
    rwa [ofWord_of_other hother] at hscan

/-- Whatever token is found, its spelling is one of the token's, and the text behind it does not go on
with it. -/
theorem spells_of (h : Scan.of cs = .token t spelling rest) (start : StopsAt isBlank cs) :
    Spells t spelling ∧ Stops t rest := by
  revert h
  fun_cases Scan.of cs with
  | case2 c back u hpunct =>
    rintro ⟨⟩
    refine ⟨.punctuation hpunct, fun hopen => ?_⟩
    simp [not_isOpenEnded_of_punctuation hpunct] at hopen
  | case3 quote back _ hquote content spelling rest hq =>
    rintro ⟨⟩
    obtain ⟨inner, rfl, hinner⟩ := escaped_of_scanQuoted hq
    exact ⟨.string hquote hinner, fun hopen => by simp [Token.isOpenEnded] at hopen⟩
  | case5 c back _ _ hnumber literal rest hscan n hvalue =>
    rintro ⟨⟩
    have hdenotes := Numeral.value?_scan_iff (n := n) hnumber
    have hstop := Numeral.stopsAt_scan (c :: back)
    rw [hscan] at hdenotes hstop
    exact ⟨.number (hdenotes.1 hvalue), fun _ => hstop⟩
  | case7 c back _ _ _ hstart word =>
    intro h
    obtain ⟨rfl, rfl, rfl⟩ := Scan.token.inj h
    have hword : isWord word = true := by
      simp only [isWord, word, Bool.and_eq_true, Bool.not_eq_true']
      exact ⟨⟨hstart, start c rfl⟩, List.all_takeWhile⟩
    exact ⟨spells_ofWord hword, fun _ => stopsAt_dropWhile _ _⟩
  | _ => intro h; cases h

theorem of_number_start (h : startsNumber cs = true) :
    Scan.of cs = match (NumberLiteral.scan cs).1.value? with
      | some n => .token (.literal (.number n)) (NumberLiteral.scan cs).1.chars (NumberLiteral.scan cs).2
      | none => .invalidNumber (NumberLiteral.scan cs).1.chars (NumberLiteral.scan cs).2 := by
  cases cs with
  | nil => simp [startsNumber] at h
  | cons c cs =>
    obtain ⟨hpunct, hquote⟩ := ofPunctuation?_of_class (fun c => isDigit c || c == '-')
      (class_of_startsNumber h) (by decide)
    cases hvalue : (NumberLiteral.scan (c :: cs)).1.value? <;>
      simp [Scan.of, hpunct, hquote, h, hvalue]

end Scan

/-- No spelling starts with a blank. -/
theorem Spells.stopsAt_isBlank {t : Token} {cs : List Char} (h : Spells t cs) (rest : List Char) :
    StopsAt isBlank (cs ++ rest) := by
  have hword : ∀ {cs : List Char}, isWord cs = true → StopsAt isBlank (cs ++ rest) := by
    intro cs hcs
    cases cs with
    | nil => simp [isWord] at hcs
    | cons c cs =>
      simp only [isWord, Bool.and_eq_true, Bool.not_eq_true'] at hcs
      exact stopsAt_cons hcs.1.2
  cases h with
  | punctuation h =>
    apply stopsAt_cons
    unfold Token.ofPunctuation? at h
    split at h <;> first | rfl | simp at h
  | string hquote => rcases hquote with rfl | rfl <;> exact stopsAt_cons (by decide)
  | number h =>
    obtain ⟨l, form, rfl, -⟩ := h.exists_literal
    exact Scan.stopsAt_of_startsNumber (Scan.startsNumber_chars form)
  | word hw same => exact hword (ofWord_of_sameWord hw same).1
  | identifier h => exact hword h

/-! ## What cannot be read -/

/-- What is wrong at the start of a text: no spelling of any token stands there, be it that the text
starts with a quote or with something else, or the longest text that is taken for a number stands for
none. -/
inductive Unreadable (position : Nat) : List Char → ReadError → Prop where
  | character {c : Char} {cs : List Char} (plain : c ≠ '\'' ∧ c ≠ '"')
      (nothing : ∀ t spelling, Spells t spelling → ¬spelling <+: c :: cs) :
      Unreadable position (c :: cs) (.unexpectedCharacter c position)
  | string {quote : Char} {cs : List Char} (hquote : quote = '\'' ∨ quote = '"')
      (nothing : ∀ t spelling, Spells t spelling → ¬spelling <+: quote :: cs) :
      Unreadable position (quote :: cs) (.unterminatedString position)
  | number {literal cs : List Char} (starts : startsNumber cs = true)
      (longest : Numeral.IsLongest Numeral.extent cs literal) (nothing : ∀ n, ¬Numeral.Denotes literal n) :
      Unreadable position cs (.invalidNumber (String.ofList literal) position)

namespace Scan

variable {t : Token} {c : Char} {cs spelling rest : List Char}

/-- Behind the start of a word there is a word at least. -/
theorem exists_token_of_isWord (h : isWord cs = true) (rest : List Char) :
    ∃ t spelling back, Scan.of (cs ++ rest) = .token t spelling back := by
  have hword : isWord (cs ++ rest.takeWhile continuesWord) = true := by
    cases cs with
    | nil => simp [isWord] at h
    | cons c cs =>
      simp only [isWord, Bool.and_eq_true, List.cons_append, List.all_append] at h ⊢
      exact ⟨h.1, h.2, List.all_takeWhile⟩
  have hscan := of_word hword (stopsAt_dropWhile continuesWord rest)
  rw [List.append_assoc, List.takeWhile_append_dropWhile] at hscan
  exact ⟨_, _, _, hscan⟩

/-- Where a spelling of a token stands, a token is found or a malformed number. -/
theorem found_of_spells (h : Spells t spelling) (rest : List Char) :
    (∃ u front back, Scan.of (spelling ++ rest) = .token u front back)
      ∨ ∃ front back, Scan.of (spelling ++ rest) = .invalidNumber front back := by
  cases h with
  | punctuation h => exact .inl ⟨_, _, _, of_punctuation h rest⟩
  | string hquote h =>
    exact .inl ⟨_, _, _, of_spells (.string hquote h) fun hopen => by simp [Token.isOpenEnded] at hopen⟩
  | number h =>
    obtain ⟨l, form, rfl, -⟩ := h.exists_literal
    rw [of_number_start (startsNumber_chars form)]
    split
    · exact .inl ⟨_, _, _, rfl⟩
    · exact .inr ⟨_, _, rfl⟩
  | word hw same => exact .inl (exists_token_of_isWord (ofWord_of_sameWord hw same).1 rest)
  | identifier hword => exact .inl (exists_token_of_isWord hword rest)

theorem of_finished (h : Scan.of cs = .finished) : cs = [] := by
  revert h
  fun_cases Scan.of cs with
  | case1 => exact fun _ => rfl
  | _ => intro h; cases h

theorem of_unexpected (h : Scan.of cs = .unexpected c) :
    ∃ back, cs = c :: back ∧ ¬(c = '\'' ∨ c = '"') := by
  revert h
  fun_cases Scan.of cs with
  | case8 d ds _ hquote =>
    rintro ⟨⟩
    exact ⟨ds, rfl, hquote⟩
  | _ => intro h; cases h

theorem of_unterminated (h : Scan.of cs = .unterminated) :
    ∃ quote back, cs = quote :: back ∧ (quote = '\'' ∨ quote = '"') := by
  revert h
  fun_cases Scan.of cs with
  | case4 quote back _ hquote => exact fun _ => ⟨quote, back, rfl, hquote⟩
  | _ => intro h; cases h

theorem of_invalidNumber (h : Scan.of cs = .invalidNumber spelling rest) :
    startsNumber cs = true ∧ spelling = (NumberLiteral.scan cs).1.chars ∧ rest = (NumberLiteral.scan cs).2
      ∧ (NumberLiteral.scan cs).1.value? = none := by
  revert h
  fun_cases Scan.of cs with
  | case6 d ds _ _ hnumber literal back hscan hvalue =>
    rintro ⟨⟩
    rw [hscan]
    exact ⟨hnumber, rfl, rfl, hvalue⟩
  | _ => intro h; cases h

/-- Where nothing can be read, no spelling of a token stands. -/
theorem not_isPrefix_of_spells
    (h : (∃ c, Scan.of cs = .unexpected c) ∨ Scan.of cs = .unterminated) (hspells : Spells t spelling) :
    ¬spelling <+: cs := by
  rintro ⟨rest, rfl⟩
  rcases found_of_spells hspells rest with ⟨u, front, back, hfound⟩ | ⟨front, back, hfound⟩ <;>
    simp [hfound] at h

theorem unreadable_of_unexpected (h : Scan.of cs = .unexpected c) (position : Nat) :
    Unreadable position cs (.unexpectedCharacter c position) := by
  obtain ⟨back, rfl, hquote⟩ := of_unexpected h
  exact .character (not_or.1 hquote) fun _ _ hspells => not_isPrefix_of_spells (.inl ⟨c, h⟩) hspells

theorem unreadable_of_unterminated (h : Scan.of cs = .unterminated) (position : Nat) :
    Unreadable position cs (.unterminatedString position) := by
  obtain ⟨quote, back, rfl, hquote⟩ := of_unterminated h
  exact .string hquote fun _ _ hspells => not_isPrefix_of_spells (.inr h) hspells

theorem unreadable_of_invalidNumber (h : Scan.of cs = .invalidNumber spelling rest) (position : Nat) :
    Unreadable position cs (.invalidNumber (String.ofList spelling) position) := by
  obtain ⟨hnumber, rfl, -, hvalue⟩ := of_invalidNumber h
  refine .number hnumber (Numeral.isLongest_scan hnumber) fun n hdenotes => ?_
  rw [← Numeral.value?_scan_iff hnumber, hvalue] at hdenotes
  simp at hdenotes

end Scan

end TagQuery
