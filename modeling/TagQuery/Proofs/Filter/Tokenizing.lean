import TagQuery.Proofs.Filter.Rendering

/-!
# Reading loses nothing

A text that can be read is a rendering of its tokens.  If it cannot be read, then it is one up to the
place of the error, where no token can be read, and the tokens before that place are those of the text
that ends there.  All parts that are cut out of the text on the way start and end between two characters
of it:

    Lexeme.read text = .error e → ∃ a back, a.chars ++ back = text.toList
      ∧ Lexeme.read a.text = .ok a.lexemes ∧ Unreadable (byteLength a.chars) back e ∧ …  (read_lossless)
    IsCut text i j → i ≤ j ∧ Boundary text i ∧ Boundary text j                         (boundary_of_isCut)

A number is read from the longest text that is taken for one (`number_read_exactly`).
-/

namespace TagQuery

open Text

/-! ## Boundaries -/

/-- No character of the text reaches over the byte. -/
abbrev Boundary (text : String) (position : Nat) : Prop :=
  String.Pos.Raw.IsValid text ⟨position⟩

theorem boundary_of_append {text : String} {front back : List Char} (h : front ++ back = text.toList) :
    Boundary text (byteLength front) := by
  rw [Boundary, String.Pos.Raw.isValid_iff_exists_append]
  refine ⟨String.ofList front, String.ofList back, ?_, ?_⟩
  · rw [← String.ofList_append, h, String.ofList_toList]
  · apply String.Pos.Raw.ext
    rw [String.byteIdx_rawEndPos, ← byteLength_toList, String.toList_ofList]

/-! ## Places of tokens -/

theorem Spells.ne_nil {t : Token} {cs : List Char} (h : Spells t cs) : cs ≠ [] := by
  have hstop : Stops t [] := fun _ => stopsAt_nil
  exact Scan.spelling_ne_nil (Scan.of_spells h hstop)

namespace Piece

variable {position : Nat} {ps : List Piece} {l : Lexeme}

/-- A token starts somewhere in the row of pieces. -/
theorem exists_front_of_mem (h : l ∈ lexemesFrom position ps) :
    ∃ front back, front ++ back = row ps ∧ l.position = position + byteLength front := by
  induction ps generalizing position with
  | nil => simp [lexemesFrom] at h
  | cons p ps ih =>
    rcases List.mem_cons.1 h with rfl | h
    · exact ⟨p.blanks, p.spelling ++ row ps, by rw [row_cons, chars, List.append_assoc], rfl⟩
    · obtain ⟨front, back, hrow, hposition⟩ := ih h
      refine ⟨p.chars ++ front, back, by rw [row_cons, List.append_assoc, hrow], ?_⟩
      rw [hposition, byteLength_append, Nat.add_assoc]

/-- Tokens start one behind the other. -/
theorem pairwise_lexemesFrom (position : Nat) (ps : List Piece) :
    (lexemesFrom position ps).Pairwise (·.position < ·.position) := by
  induction ps generalizing position with
  | nil => exact .nil
  | cons p ps ih =>
    refine .cons (fun l hl => ?_) (ih _)
    obtain ⟨front, -, -, hposition⟩ := exists_front_of_mem hl
    have hspelling := length_le_byteLength p.spelling
    have := List.length_pos_iff.2 p.spells.ne_nil
    rw [hposition, chars, byteLength_append]
    show position + byteLength p.blanks < _
    omega

theorem apart_of_append {trailing back : List Char} (h : Apart ps (trailing ++ back)) :
    Apart ps trailing := by
  induction ps with
  | nil => trivial
  | cons p ps ih =>
    obtain ⟨hstop, hapart⟩ := h
    refine ⟨fun hopen c hc => hstop hopen c ?_, ih hapart⟩
    rw [← List.append_assoc, List.head?_append, Option.mem_def.1 hc]
    rfl

end Piece

/-! ## Where reading fails -/

theorem Unreadable.position?_eq {position : Nat} {cs : List Char} {e : ReadError}
    (h : Unreadable position cs e) : e.position? = some position := by
  cases h <;> rfl

namespace Lexeme

variable {text : String} {position position' : Nat} {cs rest : List Char} {e : ReadError} {ls : List Lexeme}

/-- An error is found behind the blanks. -/
theorem unreadable_of_failed (h : next position cs = .failed e position' rest) :
    Unreadable (position + byteLength (cs.takeWhile isBlank)) (cs.dropWhile isBlank) e := by
  unfold next at h
  simp only at h
  split at h <;> simp only [Step.failed.injEq, reduceCtorEq] at h
  · next hscan => exact h.1 ▸ Scan.unreadable_of_invalidNumber hscan _
  · next hscan => exact h.1 ▸ Scan.unreadable_of_unterminated hscan _
  · next hscan => exact h.1 ▸ Scan.unreadable_of_unexpected hscan _

/-- The steps of reading take a rendering of the tokens off the text, blanks behind them included. -/
theorem Steps.exists_rendering (h : Steps 0 text.toList ls position cs) :
    ∃ a : Rendering, a.Apart ∧ a.lexemes = ls ∧ a.chars ++ cs.dropWhile isBlank = text.toList
      ∧ position + byteLength (cs.takeWhile isBlank) = byteLength a.chars := by
  obtain ⟨ps, hrow, hapart, rfl, rfl⟩ := Piece.steps_iff.1 h
  have hblanks : ∀ c ∈ cs.takeWhile isBlank, isBlank c = true := List.all_eq_true.1 List.all_takeWhile
  refine ⟨⟨ps, cs.takeWhile isBlank, hblanks⟩, ?_, rfl, ?_, ?_⟩
  · rw [← List.takeWhile_append_dropWhile (p := isBlank) (l := cs)] at hapart
    exact Piece.apart_of_append hapart
  · rw [Rendering.chars, List.append_assoc, List.takeWhile_append_dropWhile, hrow]
  · rw [Rendering.chars, byteLength_append, Nat.zero_add]

/-- Wherever reading stands, what is in front of it ends between two characters of the text. -/
theorem Steps.boundary {front back : List Char} (h : Steps 0 text.toList ls position (front ++ back)) :
    Boundary text (position + byteLength front) := by
  obtain ⟨ps, hrow, -, -, rfl⟩ := Piece.steps_iff.1 h
  rw [Nat.zero_add, ← byteLength_append]
  exact boundary_of_append (by rw [List.append_assoc, hrow])

/-- A malformed number is passed over, and it is the error's text. -/
theorem exists_of_invalidNumber {literal : String} {start : Nat}
    (h : next position cs = .failed (.invalidNumber literal start) position' rest) :
    ∃ blanks spelling, blanks ++ (spelling ++ rest) = cs ∧ literal = String.ofList spelling
      ∧ start = position + byteLength blanks ∧ position' = start + byteLength spelling := by
  unfold next at h
  simp only at h
  split at h <;> simp only [Step.failed.injEq, ReadError.invalidNumber.injEq, reduceCtorEq, false_and] at h
  next spelling back hscan =>
  obtain ⟨⟨rfl, rfl⟩, rfl, rfl⟩ := h
  refine ⟨cs.takeWhile isBlank, spelling, ?_, rfl, rfl, rfl⟩
  obtain ⟨-, rfl, rfl, -⟩ := Scan.of_invalidNumber hscan
  rw [NumberLiteral.chars_scan, List.takeWhile_append_dropWhile]

end Lexeme

/-! ## Cuts -/

open Lexeme

/-- The parts of a text, each from a byte to another, that reading looks at or copies: what stands
behind a `-`, the spelling of a token, and a malformed number. -/
inductive IsCut (text : String) : Nat → Nat → Prop where
  | minus {ls : List Lexeme} {position : Nat} {cs back : List Char}
      (reached : Steps 0 text.toList ls position cs) (minus : cs.dropWhile isBlank = '-' :: back) :
      IsCut text (position + byteLength (cs.takeWhile isBlank) + 1) text.utf8ByteSize
  | token {ls : List Lexeme} {position stop : Nat} {cs rest : List Char} {l : Lexeme}
      (reached : Steps 0 text.toList ls position cs) (next : next position cs = .token l stop rest) :
      IsCut text l.position stop
  | number {ls : List Lexeme} {position start stop : Nat} {cs rest : List Char} {literal : String}
      (reached : Steps 0 text.toList ls position cs)
      (next : next position cs = .failed (.invalidNumber literal start) stop rest) : IsCut text start stop

theorem boundary_of_isCut {text : String} {i j : Nat} (h : IsCut text i j) :
    i ≤ j ∧ Boundary text i ∧ Boundary text j := by
  cases h with
  | @minus ls position cs back reached hminus =>
    have hcs : cs = (cs.takeWhile isBlank ++ ['-']) ++ back := by
      rw [List.append_assoc, List.singleton_append, ← hminus, List.takeWhile_append_dropWhile]
    have hstart : Boundary text (position + byteLength (cs.takeWhile isBlank) + 1) := by
      have h := (hcs ▸ reached).boundary
      rwa [byteLength_append, ← Nat.add_assoc] at h
    exact ⟨hstart.le_utf8ByteSize, hstart, String.Pos.Raw.isValid_rawEndPos⟩
  | token reached hnext =>
    obtain ⟨p, rfl, -, rfl, rfl⟩ := Piece.exists_of_next hnext
    have hstop := reached.boundary
    rw [Piece.chars, List.append_assoc] at reached
    refine ⟨?_, reached.boundary, hstop⟩
    rw [Piece.chars, byteLength_append]
    exact Nat.add_le_add_left (Nat.le_add_right _ _) _
  | number reached hnext =>
    obtain ⟨blanks, spelling, rfl, -, rfl, rfl⟩ := exists_of_invalidNumber hnext
    have hstart := reached.boundary
    rw [← List.append_assoc] at reached
    have hstop := reached.boundary
    rw [byteLength_append, ← Nat.add_assoc] at hstop
    exact ⟨Nat.le_add_right _ _, hstart, hstop⟩

/-! ## The whole text -/

/-- A text that can be read is a rendering of its tokens, at places that increase; otherwise what stands
before the place of the error is one, and reads as the tokens that were returned before it, and no token
can be read at that place. -/
theorem read_lossless (text : String) :
    (∀ ls, Lexeme.read text = .ok ls ↔ ∃ a : Rendering, a.Apart ∧ a.text = text ∧ a.lexemes = ls)
    ∧ (∀ ls, Lexeme.read text = .ok ls →
        ls.Pairwise (·.position < ·.position) ∧ ∀ l ∈ ls, Boundary text l.position)
    ∧ (∀ e, Lexeme.read text = .error e →
        ∃ (a : Rendering) (back : List Char), a.chars ++ back = text.toList
          ∧ Lexeme.read a.text = .ok a.lexemes
          ∧ (∃ position cs stop rest, Steps 0 text.toList a.lexemes position cs
              ∧ next position cs = .failed e stop rest)
          ∧ e.position? = some (byteLength a.chars) ∧ Unreadable (byteLength a.chars) back e)
    ∧ (∀ i j, IsCut text i j → i ≤ j ∧ Boundary text i ∧ Boundary text j) := by
  refine ⟨fun ls => Rendering.read_ok_iff, fun ls h => ?_, fun e h => ?_, fun i j => boundary_of_isCut⟩
  · obtain ⟨a, -, rfl, rfl⟩ := Rendering.read_ok_iff.1 h
    refine ⟨Piece.pairwise_lexemesFrom 0 a.pieces, fun l hl => ?_⟩
    obtain ⟨front, back, hrow, hposition⟩ := Piece.exists_front_of_mem hl
    have htext : front ++ (back ++ a.trailing) = a.text.toList := by
      rw [Rendering.text, String.toList_ofList, Rendering.chars, ← hrow, List.append_assoc]
    rw [hposition, Nat.zero_add]
    exact boundary_of_append htext
  · obtain ⟨ls, position, cs, stop, rest, hsteps, hfailed⟩ := readFrom_error_iff.1 h
    obtain ⟨a, hapart, rfl, hchars, hposition⟩ := hsteps.exists_rendering
    have hunreadable := unreadable_of_failed hfailed
    rw [hposition] at hunreadable
    exact ⟨a, _, hchars, Rendering.read_text hapart, ⟨position, cs, stop, rest, hsteps, hfailed⟩,
      hunreadable.position?_eq, hunreadable⟩

/-! ## Numbers -/

namespace Lexeme

section

variable {blanks back : List Char} {n : Number} (position : Nat)

theorem next_of_number (blank : ∀ c ∈ blanks, isBlank c = true) (starts : startsNumber back = true)
    (value : (NumberLiteral.scan back).1.value? = some n) :
    next position (blanks ++ back) = .token ⟨.literal (.number n), position + byteLength blanks⟩
      (position + byteLength blanks + byteLength (NumberLiteral.scan back).1.chars)
      (NumberLiteral.scan back).2 := by
  have hstop := Scan.stopsAt_of_startsNumber starts
  simp only [next, takeWhile_append_stop blank hstop, dropWhile_append_stop blank hstop,
    Scan.of_number_start starts, value]

theorem next_of_malformed (blank : ∀ c ∈ blanks, isBlank c = true) (starts : startsNumber back = true)
    (value : (NumberLiteral.scan back).1.value? = none) :
    next position (blanks ++ back) = .failed
      (.invalidNumber (String.ofList (NumberLiteral.scan back).1.chars) (position + byteLength blanks))
      (position + byteLength blanks + byteLength (NumberLiteral.scan back).1.chars)
      (NumberLiteral.scan back).2 := by
  have hstop := Scan.stopsAt_of_startsNumber starts
  simp only [next, takeWhile_append_stop blank hstop, dropWhile_append_stop blank hstop,
    Scan.of_number_start starts, value]

/-- Where a number starts, the longest text that is taken for one is passed over.  It is read as the
number that it stands for, which it does if it has the form of a number and is not too large; otherwise
it is an error, with that text and the place where it starts. -/
theorem number_read_exactly (blank : ∀ c ∈ blanks, isBlank c = true) (starts : startsNumber back = true) :
    ∃ literal rest start stop, literal ++ rest = back ∧ Numeral.IsLongest Numeral.extent back literal
      ∧ start = position + byteLength blanks ∧ stop = start + byteLength literal
      ∧ (∀ n, Numeral.Denotes literal n ↔
          next position (blanks ++ back) = .token ⟨.literal (.number n), start⟩ stop rest)
      ∧ ((∃ n, Numeral.Denotes literal n) ↔
          literal ∈ Numeral.form ∧ ∀ q, Numeral.HasMagnitude literal q → q < Number.Binary64.beyond)
      ∧ (∀ i h, Numeral.Denotes literal (.whole i h) ↔ Numeral.IsInteger literal i)
      ∧ ((∀ n, ¬Numeral.Denotes literal n) →
          next position (blanks ++ back) = .failed (.invalidNumber (String.ofList literal) start) stop rest
            ∧ ∀ text ls, Steps 0 text.toList ls position (blanks ++ back) →
                Lexeme.read text = .error (.invalidNumber (String.ofList literal) start)) := by
  refine ⟨(NumberLiteral.scan back).1.chars, (NumberLiteral.scan back).2, _, _,
    NumberLiteral.chars_scan back, Numeral.isLongest_scan starts, rfl, rfl, fun n => ?_,
    Numeral.exists_denotes_text_iff, fun i => Numeral.denotes_whole_iff, fun nothing => ?_⟩
  · rw [← Numeral.value?_scan_iff starts]
    constructor
    · exact next_of_number position blank starts
    · intro hnext
      cases hvalue : (NumberLiteral.scan back).1.value? with
      | none => simp [next_of_malformed position blank starts hvalue] at hnext
      | some m => simpa [next_of_number position blank starts hvalue] using hnext
  · have hnone : (NumberLiteral.scan back).1.value? = none := by
      rw [Option.eq_none_iff_forall_ne_some]
      exact fun n hn => nothing n ((Numeral.value?_scan_iff starts).1 hn)
    have hnext := next_of_malformed position blank starts hnone
    exact ⟨hnext, fun text ls hsteps => readFrom_error_iff.2 ⟨ls, _, _, _, _, hsteps, hnext⟩⟩

end

/-- Digits with other characters of a word behind them are no number. -/
theorem number_read_exactly_glued :
    ∃ literal, Numeral.IsLongest Numeral.extent "12_0 AND".toList literal
      ∧ ∀ n, ¬Numeral.Denotes literal n := by
  have hblank : ∀ c ∈ [' '], isBlank c = true := List.all_eq_true.1 rfl
  have hstarts : startsNumber "12_0 AND".toList = true := by decide
  obtain ⟨literal, rest, start, stop, -, hlongest, rfl, rfl, hdenotes, -⟩ :=
    number_read_exactly 7 hblank hstarts
  have hfailed : next 7 ([' '] ++ "12_0 AND".toList)
      = .failed (.invalidNumber "12_0" 8) 12 " AND".toList := by decide +kernel
  refine ⟨literal, hlongest, fun n hn => ?_⟩
  rw [hdenotes, hfailed] at hn
  cases hn

end Lexeme

end TagQuery
