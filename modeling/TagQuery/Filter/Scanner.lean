import TagQuery.Filter.ReadError
import TagQuery.Number.Literal
import TagQuery.Text.AsciiCase
import TagQuery.Text.Blank
import TagQuery.Text.Extent

/-! The tokens of a text.

`Scan.of` reads the token at the start of a text that does not start with a blank.  `Lexeme.next` skips
the blanks before it and gives the token its position, and `Lexeme.read` goes on to the end of the text or
to the first place that cannot be read.

    Scan.chars_of       nothing of the text is lost
    Scan.length_lt      a token takes a character at least -/

namespace TagQuery

/-! ## Algorithm -/

/-- What stands at the start of a text. -/
inductive Scan where
  | token (token : Token) (spelling rest : List Char)
  | invalidNumber (spelling rest : List Char)
  | unterminated
  | unexpected (c : Char)
  | finished
  deriving DecidableEq, Repr

/-- The keyword, operator or name that a word is. -/
def Token.ofWord (word : List Char) : Token :=
  if Text.sameWord word "and".toList then .and
  else if Text.sameWord word "or".toList then .or
  else if Text.sameWord word "true".toList then .literal (.boolean true)
  else if Text.sameWord word "false".toList then .literal (.boolean false)
  else
    match Operator.ofName? (String.ofList word) with
    | some op => .operator op
    | none => .identifier (String.ofList word)

/-- The content of a string behind its opening quote, its spelling up to the closing quote, and the
rest; a backslash takes the character behind it as it is. -/
def scanQuoted (quote : Char) : List Char → Option (List Char × List Char × List Char)
  | [] => none
  | c :: cs =>
    if c = quote then some ([], [c], cs)
    else if c = '\\' then
      match cs with
      | [] => none
      | d :: ds =>
        (scanQuoted quote ds).map fun (content, spelling, rest) =>
          (d :: content, c :: d :: spelling, rest)
    else
      (scanQuoted quote cs).map fun (content, spelling, rest) =>
        (c :: content, c :: spelling, rest)

/-- The token that a punctuation character is. -/
def Token.ofPunctuation? : Char → Option Token
  | '(' => some .openBracket
  | ')' => some .closeBracket
  | ':' => some .colon
  | '@' => some .at
  | _ => none

/-- A number starts with a digit, or with a `-` and a digit. -/
def startsNumber : List Char → Bool
  | [] => false
  | c :: cs => isDigit c || c == '-' && (cs.head?.map isDigit).getD false

/-- What stands at the start of a text without blanks before it. -/
def Scan.of : List Char → Scan
  | [] => .finished
  | c :: cs =>
    match Token.ofPunctuation? c with
    | some t => .token t [c] cs
    | none =>
      if c = '\'' ∨ c = '"' then
        match scanQuoted c cs with
        | some (content, spelling, rest) =>
          .token (.literal (.string (String.ofList content))) (c :: spelling) rest
        | none => .unterminated
      else if startsNumber (c :: cs) then
        let (literal, rest) := NumberLiteral.scan (c :: cs)
        match literal.value? with
        | some n => .token (.literal (.number n)) literal.chars rest
        | none => .invalidNumber literal.chars rest
      else if Text.startsWord c then
        let word := c :: cs.takeWhile Text.continuesWord
        .token (.ofWord word) word (cs.dropWhile Text.continuesWord)
      else .unexpected c

namespace Lexeme

/-- The next step of reading: the text is at its end, a token and the text behind it, or an error and the
text at which reading could go on. -/
inductive Step where
  | finished
  | token (lexeme : Lexeme) (position : Nat) (rest : List Char)
  | failed (error : ReadError) (position : Nat) (rest : List Char)
  deriving DecidableEq, Repr

/-- The next token of a text that starts at the byte `position` of the input.  A character that starts no
token is not passed over; a malformed number or an unterminated string is. -/
def next (position : Nat) (cs : List Char) : Step :=
  let start := position + Text.byteLength (cs.takeWhile Text.isBlank)
  let text := cs.dropWhile Text.isBlank
  match Scan.of text with
  | .finished => .finished
  | .token t spelling rest => .token ⟨t, start⟩ (start + Text.byteLength spelling) rest
  | .invalidNumber spelling rest =>
    .failed (.invalidNumber (String.ofList spelling) start) (start + Text.byteLength spelling) rest
  | .unterminated => .failed (.unterminatedString start) (start + Text.byteLength text) []
  | .unexpected c => .failed (.unexpectedCharacter c start) start text

end Lexeme

/-! ## Lemmas -/

theorem chars_scanQuoted {quote : Char} {cs content spelling rest : List Char}
    (h : scanQuoted quote cs = some (content, spelling, rest)) : spelling ++ rest = cs := by
  fun_induction scanQuoted quote cs generalizing content spelling rest with
  | case1 => simp at h
  | case2 cs =>
    simp only [Option.some.injEq, Prod.mk.injEq] at h
    simp [← h.2.1, ← h.2.2]
  | case3 => simp at h
  | case4 d ds hq ih =>
    obtain ⟨⟨p, s, r⟩, hp, he⟩ := Option.map_eq_some_iff.1 h
    simp only [Prod.mk.injEq] at he
    simp [← he.2.1, ← he.2.2, ih hp]
  | case5 c cs hc hq ih =>
    obtain ⟨⟨p, s, r⟩, hp, he⟩ := Option.map_eq_some_iff.1 h
    simp only [Prod.mk.injEq] at he
    simp [← he.2.1, ← he.2.2, ih hp]

/-- The spelling of a token and the rest make up the text. -/
theorem Scan.chars_of {cs spelling rest : List Char} {t : Token}
    (h : Scan.of cs = .token t spelling rest) : spelling ++ rest = cs := by
  unfold Scan.of at h
  split at h
  · simp at h
  · rename_i c cs
    split at h
    · simp only [Scan.token.injEq] at h
      simp [← h.2.1, ← h.2.2]
    · split at h
      · split at h
        · rename_i hq
          simp only [Scan.token.injEq] at h
          simp [← h.2.1, ← h.2.2, chars_scanQuoted hq]
        · simp at h
      · split at h
        · simp only at h
          split at h
          · simp only [Scan.token.injEq] at h
            rw [← h.2.1, ← h.2.2, NumberLiteral.chars_scan]
          · simp at h
        · split at h
          · simp only [Scan.token.injEq] at h
            simp [← h.2.1, ← h.2.2, List.takeWhile_append_dropWhile]
          · simp at h

theorem NumberLiteral.chars_ne_nil {cs : List Char} (h : startsNumber cs = true) :
    (NumberLiteral.scan cs).1.chars ≠ [] := by
  cases cs with
  | nil => simp [startsNumber] at h
  | cons c cs =>
    by_cases hc : c = '-'
    · simp [NumberLiteral.scan, NumberLiteral.scanSign, NumberLiteral.chars, hc]
    · have hd : isDigit c = true := by simpa [startsNumber, hc] using h
      simp [NumberLiteral.scan, NumberLiteral.scanSign, NumberLiteral.chars, hc, hd]

theorem Scan.spelling_ne_nil {cs spelling rest : List Char} {t : Token}
    (h : Scan.of cs = .token t spelling rest) : spelling ≠ [] := by
  unfold Scan.of at h
  split at h
  · simp at h
  · rename_i c cs
    split at h
    · simp only [Scan.token.injEq] at h
      simp [← h.2.1]
    · split at h
      · split at h
        · simp only [Scan.token.injEq] at h
          simp [← h.2.1]
        · simp at h
      · split at h
        · rename_i hn
          simp only at h
          split at h
          · simp only [Scan.token.injEq] at h
            rw [← h.2.1]
            exact NumberLiteral.chars_ne_nil hn
          · simp at h
        · split at h
          · simp only [Scan.token.injEq] at h
            simp [← h.2.1]
          · simp at h

/-- A token takes a character at least. -/
theorem Scan.length_lt {cs spelling rest : List Char} {t : Token}
    (h : Scan.of cs = .token t spelling rest) : rest.length < cs.length := by
  rw [← Scan.chars_of h, List.length_append]
  have := List.length_pos_iff.2 (Scan.spelling_ne_nil h)
  omega

namespace Lexeme

theorem next_length_lt {position position' : Nat} {cs rest : List Char} {l : Lexeme}
    (h : next position cs = .token l position' rest) : rest.length < cs.length := by
  unfold next at h
  simp only at h
  split at h <;> simp only [Step.token.injEq, reduceCtorEq] at h
  rename_i hs
  rw [← h.2.2]
  have hd : (cs.dropWhile Text.isBlank).length ≤ cs.length :=
    (List.dropWhile_sublist Text.isBlank).length_le
  have := Scan.length_lt hs
  omega

/-- The tokens of a text that starts at the byte `position`, or what stands at the first place that
cannot be read. -/
def readFrom (position : Nat) (cs : List Char) : Except ReadError (List Lexeme) :=
  match _h : next position cs with
  | .finished => .ok []
  | .failed e _ _ => .error e
  | .token l position' rest =>
    match readFrom position' rest with
    | .ok ls => .ok (l :: ls)
    | .error e => .error e
termination_by cs.length
decreasing_by exact next_length_lt _h

def read (text : String) : Except ReadError (List Lexeme) :=
  readFrom 0 text.toList

end Lexeme

/-- The name reads back as one identifier, so that it can stand in a filter as it is. -/
def isPlainName (name : String) : Bool :=
  match Lexeme.read name with
  | .ok [l] => l.token == .identifier name
  | _ => false

end TagQuery
