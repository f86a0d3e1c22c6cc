import TagQuery.Filter.Scanner
import TagQuery.Proofs.Except
import TagQuery.Proofs.Number.Literal

/-!
# The tokens of a printed filter

A text lexes to tokens (`Lexes`) in front of what stands behind it: reading on gives those tokens first.
Texts that lex can be put together, so that a filter whose names are plain prints as a text that lexes to
the filter's own tokens:

    (∀ c ∈ f.conditions, IsPlain c.entity.name) → Lexes f.chars f.tokens []    (lexes_filter)
-/

namespace TagQuery

open Text

/-! ## What stands at the start of a text -/

/-- The characters of a string behind its opening quote. -/
def quotedTail (cs : List Char) : List Char :=
  cs.flatMap (fun c => if c = '\'' ∨ c = '\\' then ['\\', c] else [c]) ++ ['\'']

theorem quoted_eq (cs : List Char) : quoted cs = '\'' :: quotedTail cs := rfl

section

variable {quote c : Char} {cs : List Char}

theorem scanQuoted_close : scanQuoted quote (quote :: cs) = some ([], [quote], cs) := by
  cases cs <;> simp [scanQuoted]

theorem scanQuoted_escaped (h : quote ≠ '\\') :
    scanQuoted quote ('\\' :: c :: cs)
      = (scanQuoted quote cs).map fun (content, spelling, rest) =>
          (c :: content, '\\' :: c :: spelling, rest) := by
  simp [scanQuoted, Ne.symm h]

theorem scanQuoted_plain (hquote : c ≠ quote) (hslash : c ≠ '\\') :
    scanQuoted quote (c :: cs)
      = (scanQuoted quote cs).map fun (content, spelling, rest) =>
          (c :: content, c :: spelling, rest) := by
  cases cs <;> simp [scanQuoted, hquote, hslash]

end

theorem scanQuoted_quotedTail (cs rest : List Char) :
    scanQuoted '\'' (quotedTail cs ++ rest) = some (cs, quotedTail cs, rest) := by
  induction cs with
  | nil => exact scanQuoted_close
  | cons c cs ih =>
    simp only [quotedTail, List.flatMap_cons, List.append_assoc] at ih ⊢
    by_cases hc : c = '\'' ∨ c = '\\'
    · rw [if_pos hc]
      simp only [List.cons_append, List.nil_append] at ih ⊢
      rw [scanQuoted_escaped (by decide), ih]
      rfl
    · rw [if_neg hc]
      obtain ⟨hquote, hslash⟩ := not_or.1 hc
      simp only [List.cons_append, List.nil_append] at ih ⊢
      rw [scanQuoted_plain hquote hslash, ih]
      rfl

/-- The characters make up a word, and no blank stands at its start. -/
def isWord : List Char → Bool
  | [] => false
  | c :: cs => startsWord c && !isBlank c && cs.all continuesWord

namespace Scan

theorem of_quoted (cs rest : List Char) :
    Scan.of (quoted cs ++ rest)
      = .token (.literal (.string (String.ofList cs))) (quoted cs) rest := by
  rw [quoted_eq, List.cons_append, Scan.of]
  simp [Token.ofPunctuation?, scanQuoted_quotedTail]

theorem of_punctuation {c : Char} {t : Token} (h : Token.ofPunctuation? c = some t)
    (rest : List Char) : Scan.of (c :: rest) = .token t [c] rest := by
  simp [Scan.of, h]

theorem ofPunctuation?_eq_none {c : Char}
    (h : c ≠ '(' ∧ c ≠ ')' ∧ c ≠ ':' ∧ c ≠ '@') : Token.ofPunctuation? c = none := by
  unfold Token.ofPunctuation?
  split <;> simp_all

variable {rest : List Char}

/-- A character of a class without punctuation and quotes. -/
theorem ofPunctuation?_of_class (p : Char → Bool) {c : Char} (h : p c = true)
    (none : ['(', ')', ':', '@', '\'', '"'].all (fun d => !p d) = true) :
    Token.ofPunctuation? c = Option.none ∧ ¬(c = '\'' ∨ c = '"') := by
  have ne : ∀ d ∈ ['(', ')', ':', '@', '\'', '"'], c ≠ d := by
    rintro d hd rfl
    simpa [h] using List.all_eq_true.1 none c hd
  refine ⟨ofPunctuation?_eq_none ⟨ne _ (by decide), ne _ (by decide), ne _ (by decide),
    ne _ (by decide)⟩, ?_⟩
  rintro (rfl | rfl)
  · exact ne _ (by decide) rfl
  · exact ne _ (by decide) rfl

/-- The first character of a literal in the form of a number, and of any text that it starts. -/
theorem startsNumber_chars {l : NumberLiteral} (h : l.InForm) :
    startsNumber (l.chars ++ rest) = true := by
  rw [NumberLiteral.chars_eq]
  obtain ⟨d, ds, hwhole, hd⟩ := h.whole.eq_cons
  rw [hwhole]
  cases l.negative <;> simp [startsNumber, hd]

/-- A number starts with a digit or a `-`. -/
theorem class_of_startsNumber {c : Char} {cs : List Char} (h : startsNumber (c :: cs) = true) :
    (isDigit c || c == '-') = true := by
  simp only [startsNumber, Bool.or_eq_true, Bool.and_eq_true] at h ⊢
  exact h.imp_right And.left

theorem stopsAt_of_startsNumber {cs : List Char} (h : startsNumber cs = true) :
    StopsAt isBlank cs := by
  cases cs with
  | nil => exact stopsAt_nil
  | cons c cs =>
    apply stopsAt_cons
    rcases Bool.or_eq_true_iff.1 (class_of_startsNumber h) with hd | hm
    · exact (classes_of_isDigit hd).2.2
    · obtain rfl : c = '-' := by simpa using hm
      decide

/-- A literal in the form of a number is found in front of what does not go on with a word. -/
theorem of_literal {l : NumberLiteral} {n : Number} (h : l.InForm) (value : l.value? = some n)
    (stop : StopsAt continuesWord rest) :
    Scan.of (l.chars ++ rest) = .token (.literal (.number n)) l.chars rest := by
  have hscan := NumberLiteral.scan_chars h stop
  have hnumber : startsNumber (l.chars ++ rest) = true := startsNumber_chars h
  cases htext : l.chars ++ rest with
  | nil => simp [htext, startsNumber] at hnumber
  | cons c cs =>
    rw [htext] at hscan hnumber
    obtain ⟨hpunct, hquote⟩ := ofPunctuation?_of_class (fun c => isDigit c || c == '-')
      (class_of_startsNumber hnumber) (by decide)
    simp [Scan.of, hpunct, hquote, hnumber, hscan, value]

theorem of_number (n : Number) (stop : StopsAt continuesWord rest) :
    Scan.of (n.chars ++ rest) = .token (.literal (.number n)) n.chars rest := by
  rw [← Number.chars_literal]
  exact of_literal (Number.regular_literal n).inForm (Number.value?_literal n) stop

/-- A word is found in front of what does not go on with it. -/
theorem of_word {cs : List Char} (h : isWord cs = true) (stop : StopsAt continuesWord rest) :
    Scan.of (cs ++ rest) = .token (.ofWord cs) cs rest := by
  cases cs with
  | nil => simp [isWord] at h
  | cons c cs =>
    simp only [isWord, Bool.and_eq_true, List.all_eq_true] at h
    obtain ⟨⟨hstart, -⟩, hcs⟩ := h
    obtain ⟨hpunct, hquote⟩ := ofPunctuation?_of_class startsWord hstart (by decide)
    have hnumber : startsNumber (c :: (cs ++ rest)) = false := by
      have hdigit : isDigit c = false := by
        cases hd : isDigit c with
        | false => rfl
        | true => simpa [hstart] using (classes_of_isDigit hd).2.1
      have hminus : c ≠ '-' := by
        rintro rfl
        exact absurd hstart (by decide)
      simp [startsNumber, hdigit, hminus]
    simp [Scan.of, hpunct, hquote, hnumber, hstart, takeWhile_append_stop hcs stop,
      dropWhile_append_stop hcs stop]

end Scan

/-! ## One step of reading -/

namespace Lexeme

variable {position position' : Nat} {cs rest : List Char} {l : Lexeme} {e : ReadError}

theorem readFrom_of_token (h : next position cs = .token l position' rest) :
    readFrom position cs = (readFrom position' rest).map (l :: ·) := by
  rw [readFrom]
  split
  · next hn => simp [h] at hn
  · next hn => simp [h] at hn
  · next hn =>
    rw [h] at hn
    obtain ⟨rfl, rfl, rfl⟩ := Step.token.inj hn
    cases readFrom position' rest <;> rfl

theorem readFrom_of_finished (h : next position cs = .finished) : readFrom position cs = .ok [] := by
  rw [readFrom]
  split <;> simp_all

theorem readFrom_of_failed (h : next position cs = .failed e position' rest) :
    readFrom position cs = .error e := by
  rw [readFrom]
  split <;> simp_all

end Lexeme

/-! ## Texts that lex -/

/-- The tokens of a text, their places left out. -/
def tokensFrom (position : Nat) (cs : List Char) : Except ReadError (List Token) :=
  (Lexeme.readFrom position cs).map (List.map Lexeme.token)

/-- With `rest` behind it, the text `cs` is read as the tokens `ts`. -/
def Lexes (cs : List Char) (ts : List Token) (rest : List Char) : Prop :=
  ∀ position, tokensFrom position (cs ++ rest)
    = (tokensFrom (position + byteLength cs) rest).map (ts ++ ·)

namespace Lexes

variable {cs ds rest : List Char} {ts us : List Token}

theorem append (first : Lexes cs ts (ds ++ rest)) (second : Lexes ds us rest) :
    Lexes (cs ++ ds) (ts ++ us) rest := by
  intro position
  rw [List.append_assoc, first, second, Except.map_map, byteLength_append, Nat.add_assoc]
  congr 1
  funext xs
  simp

/-- A text that starts with no blank is read by its first token and then by what is behind it. -/
theorem token {t : Token} (h : Scan.of (cs ++ rest) = .token t cs rest)
    (start : StopsAt isBlank (cs ++ rest)) : Lexes cs [t] rest := by
  intro position
  have hnext : Lexeme.next position (cs ++ rest)
      = .token ⟨t, position⟩ (position + byteLength cs) rest := by
    simp only [Lexeme.next, start.takeWhile_eq_nil, start.dropWhile_eq, h]
    rfl
  rw [tokensFrom, Lexeme.readFrom_of_token hnext, tokensFrom, Except.map_map, Except.map_map]
  rfl

/-- A blank is passed over. -/
theorem blank {c : Char} (h : isBlank c = true) : Lexes [c] [] rest := by
  intro position
  have hnext : Lexeme.next position (c :: rest) = Lexeme.next (position + c.utf8Size) rest := by
    simp [Lexeme.next, h, Nat.add_assoc]
  have hread : Lexeme.readFrom position (c :: rest)
      = Lexeme.readFrom (position + c.utf8Size) rest := by
    rw [Lexeme.readFrom, Lexeme.readFrom, hnext]
  rw [List.singleton_append, tokensFrom, hread, tokensFrom, Except.map_map]
  rfl

/-- What lexes at the end of a text is read as its tokens. -/
theorem read (h : Lexes cs ts []) :
    ∃ ls, Lexeme.read (String.ofList cs) = .ok ls ∧ ls.map Lexeme.token = ts := by
  have h0 := h 0
  have hend : tokensFrom (0 + byteLength cs) [] = .ok [] := by
    rw [tokensFrom, Lexeme.readFrom]
    rfl
  rw [hend, List.append_nil, tokensFrom] at h0
  rw [Lexeme.read, String.toList_ofList]
  cases hread : Lexeme.readFrom 0 cs with
  | error e => simp [hread, Except.map] at h0
  | ok ls => exact ⟨ls, rfl, by simpa [hread, Except.map] using h0⟩

end Lexes

/-! ## Words -/

/-- A name that is read as an identifier. -/
def IsPlain (name : String) : Prop :=
  isWord name.toList = true ∧ Token.ofWord name.toList = .identifier name

namespace Lexes

variable {rest : List Char}

theorem word {cs : List Char} (h : isWord cs = true) (stop : StopsAt continuesWord rest) :
    Lexes cs [.ofWord cs] rest := by
  apply Lexes.token (Scan.of_word h stop)
  cases cs with
  | nil => simp [isWord] at h
  | cons c cs =>
    simp only [isWord, Bool.and_eq_true, Bool.not_eq_true'] at h
    exact stopsAt_cons h.1.2

theorem name {name : String} (h : IsPlain name) (stop : StopsAt continuesWord rest) :
    Lexes name.toList [.identifier name] rest := by
  rw [← h.2]
  exact word h.1 stop

theorem punctuation {c : Char} {t : Token} (h : Token.ofPunctuation? c = some t)
    (hc : isBlank c = false) : Lexes [c] [t] rest :=
  Lexes.token (Scan.of_punctuation h rest) (stopsAt_cons hc)

theorem string (text : String) : Lexes (quoted text.toList) [.literal (.string text)] rest := by
  have h := Scan.of_quoted text.toList rest
  rw [String.ofList_toList] at h
  exact Lexes.token h (stopsAt_cons (by decide))

/-- An operator or a connective between blanks. -/
theorem spaced (cs : List Char) (h : isWord cs = true) :
    Lexes (' ' :: (cs ++ [' '])) [.ofWord cs] rest :=
  append (blank (by decide)) (append (word h (stopsAt_cons (by decide))) (blank (by decide)))

end Lexes

theorem isWord_operator (op : Operator) : isWord op.name.toList = true := by
  cases op with
  | comparison op => cases op <;> decide
  | test op => cases op <;> decide

theorem ofWord_operator (op : Operator) : Token.ofWord op.name.toList = .operator op := by
  cases op with
  | comparison op => cases op <;> decide
  | test op => cases op <;> decide

theorem isPlain_origin (o : Origin) : IsPlain o.key := by
  cases o <;> exact ⟨by decide, by decide⟩

/-! ## The tokens of a filter -/

/-- The tokens of an entity. -/
def Entity.tokens (e : Entity) : List Token :=
  .identifier e.name
    :: ((match e.key with | some key => [.colon, .literal (.string key)] | none => [])
      ++ (match e.origin with | some origin => [.at, .identifier origin.key] | none => []))

/-- The tokens of a condition. -/
def Condition.tokens : Condition → List Token
  | .compare e op v => e.tokens ++ [.operator (.comparison op), .literal v]
  | .test e op => e.tokens ++ [.operator (.test op)]

mutual

/-- The tokens of a filter. -/
def Filter.tokens : Filter → List Token
  | .single c => c.tokens
  | .or c rest => c.tokens ++ .or :: rest.tokens

def Chain.tokens : Chain → List Token
  | .single o => o.tokens
  | .and o rest => o.tokens ++ .and :: rest.tokens

def Operand.tokens : Operand → List Token
  | .condition c => c.tokens
  | .group f => .openBracket :: (f.tokens ++ [.closeBracket])

end

section

variable {rest : List Char}

theorem lexes_value (v : Value) (stop : StopsAt continuesWord rest) :
    Lexes v.chars [.literal v] rest := by
  cases v with
  | string text => exact Lexes.string text
  | number n =>
    apply Lexes.token (Scan.of_number n stop)
    show StopsAt isBlank (n.chars ++ rest)
    rw [← Number.chars_literal]
    exact Scan.stopsAt_of_startsNumber (Scan.startsNumber_chars (Number.regular_literal n).inForm)
  | boolean b =>
    cases b with
    | true =>
      show Lexes "true".toList [.ofWord "true".toList] rest
      exact Lexes.word (by decide) stop
    | false =>
      show Lexes "false".toList [.ofWord "false".toList] rest
      exact Lexes.word (by decide) stop

theorem lexes_key (key : String) :
    Lexes (':' :: quoted key.toList) [.colon, .literal (.string key)] rest :=
  Lexes.append (Lexes.punctuation rfl (by decide)) (Lexes.string key)

theorem lexes_origin (o : Origin) (stop : StopsAt continuesWord rest) :
    Lexes ('@' :: o.key.toList) [.at, .identifier o.key] rest :=
  Lexes.append (Lexes.punctuation rfl (by decide)) (Lexes.name (isPlain_origin o) stop)

theorem lexes_entity {e : Entity} (h : IsPlain e.name) (stop : StopsAt continuesWord rest) :
    Lexes e.chars e.tokens rest := by
  obtain ⟨name, key, origin⟩ := e
  cases key with
  | none =>
    cases origin with
    | none => simpa [Entity.chars, Entity.tokens] using Lexes.name h stop
    | some o =>
      have hname : Lexes name.toList [.identifier name] ('@' :: o.key.toList ++ rest) :=
        Lexes.name h (stopsAt_cons (by decide))
      simpa [Entity.chars, Entity.tokens] using hname.append (lexes_origin o stop)
  | some key =>
    cases origin with
    | none =>
      have hname : Lexes name.toList [.identifier name] (':' :: quoted key.toList ++ rest) :=
        Lexes.name h (stopsAt_cons (by decide))
      simpa [Entity.chars, Entity.tokens] using hname.append (lexes_key key)
    | some o =>
      have hname : Lexes name.toList [.identifier name]
          (':' :: quoted key.toList ++ '@' :: o.key.toList ++ rest) :=
        Lexes.name h (stopsAt_cons (by decide))
      simpa [Entity.chars, Entity.tokens] using
        hname.append ((lexes_key key).append (lexes_origin o stop))

theorem lexes_operator (op : Operator) (stop : StopsAt continuesWord rest) :
    Lexes (' ' :: op.name.toList) [.operator op] rest := by
  have h := Lexes.word (isWord_operator op) stop
  rw [ofWord_operator] at h
  exact Lexes.append (Lexes.blank (by decide)) h

theorem lexes_condition {c : Condition} (h : IsPlain c.entity.name)
    (stop : StopsAt continuesWord rest) : Lexes c.chars c.tokens rest := by
  cases c with
  | compare e op v =>
    have hentity : Lexes e.chars e.tokens
        (' ' :: (op.name.toList ++ ' ' :: v.chars) ++ rest) :=
      lexes_entity h (stopsAt_cons (by decide))
    have hop : Lexes (' ' :: op.name.toList) [.operator (.comparison op)] (' ' :: v.chars ++ rest) :=
      lexes_operator (.comparison op) (stopsAt_cons (by decide))
    have hvalue : Lexes (' ' :: v.chars) [.literal v] rest :=
      Lexes.append (Lexes.blank (by decide)) (lexes_value v stop)
    simpa [Condition.chars, Condition.tokens] using hentity.append (hop.append hvalue)
  | test e op =>
    have hentity : Lexes e.chars e.tokens (' ' :: op.name.toList ++ rest) :=
      lexes_entity h (stopsAt_cons (by decide))
    exact hentity.append (lexes_operator (.test op) stop)

end

mutual

/-- A filter with plain names lexes to its tokens. -/
theorem lexes_filter : ∀ {f : Filter} {rest : List Char},
    (∀ c ∈ f.conditions, IsPlain c.entity.name) → StopsAt continuesWord rest →
      Lexes f.chars f.tokens rest
  | .single _, _, h, stop => lexes_chain h stop
  | .or c f, rest, h, stop => by
    simp only [Filter.conditions, List.mem_append, or_imp, forall_and] at h
    have hc : Lexes c.chars c.tokens (" OR ".toList ++ f.chars ++ rest) :=
      lexes_chain h.1 (stopsAt_cons (by decide))
    have hor : Lexes " OR ".toList [.or] (f.chars ++ rest) :=
      Lexes.spaced "OR".toList (by decide)
    simpa [Filter.chars, Filter.tokens] using hc.append (hor.append (lexes_filter h.2 stop))

theorem lexes_chain : ∀ {c : Chain} {rest : List Char},
    (∀ d ∈ c.conditions, IsPlain d.entity.name) → StopsAt continuesWord rest →
      Lexes c.chars c.tokens rest
  | .single _, _, h, stop => lexes_operand h stop
  | .and o c, rest, h, stop => by
    simp only [Chain.conditions, List.mem_append, or_imp, forall_and] at h
    have ho : Lexes o.chars o.tokens (" AND ".toList ++ c.chars ++ rest) :=
      lexes_operand h.1 (stopsAt_cons (by decide))
    have hand : Lexes " AND ".toList [.and] (c.chars ++ rest) :=
      Lexes.spaced "AND".toList (by decide)
    simpa [Chain.chars, Chain.tokens] using ho.append (hand.append (lexes_chain h.2 stop))

theorem lexes_operand : ∀ {o : Operand} {rest : List Char},
    (∀ c ∈ o.conditions, IsPlain c.entity.name) → StopsAt continuesWord rest →
      Lexes o.chars o.tokens rest
  | .condition c, _, h, stop => lexes_condition (h c (by simp [Operand.conditions])) stop
  | .group f, rest, h, _ => by
    have hopen : Lexes ['('] [.openBracket] (f.chars ++ [')'] ++ rest) :=
      Lexes.punctuation rfl (by decide)
    have hf : Lexes f.chars f.tokens ([')'] ++ rest) := lexes_filter h (stopsAt_cons (by decide))
    have hclose : Lexes [')'] [.closeBracket] rest := Lexes.punctuation rfl (by decide)
    exact hopen.append (hf.append hclose)

end

end TagQuery
