import Mathlib.Data.List.TakeWhile
import TagQuery.Proofs.Filter.Parsing
import TagQuery.Proofs.Filter.Spelling

/-!
# Renderings of tokens

A rendering is a row of spelled tokens with blanks before each and behind the last.  Tokens that go on
as far as they can must stand apart from what follows (`Apart`), which any blank between the tokens sees
to (`Spaced`).  A text is read as tokens just if it is such a rendering of them, and each is read at the
byte where its spelling starts:

    Lexeme.read text = .ok ls ↔ ∃ a : Rendering, a.Apart ∧ a.text = text ∧ a.lexemes = ls    (read_ok_iff)

So the filter of a text depends on the tokens alone and not on how they are spelled and spaced
(`parse_congr`), and the identifiers of a text are plain names:

    isPlainName name = true ↔ IsPlain name                                               (isPlainName_iff)
-/

namespace TagQuery

open Text

/-! ## Tokens in a text -/

/-- A token in a text: the blanks before it, and how it is written. -/
structure Piece where
  blanks : List Char
  token : Token
  spelling : List Char
  areBlank : ∀ c ∈ blanks, isBlank c = true
  spells : Spells token spelling

namespace Piece

def chars (p : Piece) : List Char :=
  p.blanks ++ p.spelling

/-- The text of a row of pieces. -/
def row (ps : List Piece) : List Char :=
  ps.flatMap chars

/-- The tokens of a row of pieces that starts at a byte, each with the byte at which its spelling starts. -/
def lexemesFrom (position : Nat) : List Piece → List Lexeme
  | [] => []
  | p :: ps => ⟨p.token, position + byteLength p.blanks⟩ :: lexemesFrom (position + byteLength p.chars) ps

/-- No token of the row goes on with what stands behind it. -/
def Apart : List Piece → List Char → Prop
  | [], _ => True
  | p :: ps, rest => Stops p.token (row ps ++ rest) ∧ Apart ps rest

end Piece

/-- A row of pieces, and the blanks behind the last. -/
structure Rendering where
  pieces : List Piece
  trailing : List Char
  areBlank : ∀ c ∈ trailing, isBlank c = true

namespace Rendering

variable (a : Rendering)

def chars : List Char :=
  Piece.row a.pieces ++ a.trailing

def text : String :=
  String.ofList a.chars

def tokens : List Token :=
  a.pieces.map Piece.token

def lexemes : List Lexeme :=
  Piece.lexemesFrom 0 a.pieces

/-- No token goes on with what stands behind it. -/
def Apart : Prop :=
  Piece.Apart a.pieces a.trailing

/-- Blanks stand between any two tokens. -/
def Spaced : Prop :=
  ∀ p ∈ a.pieces.tail, p.blanks ≠ []

instance : Decidable a.Spaced :=
  inferInstanceAs (Decidable (∀ p ∈ a.pieces.tail, p.blanks ≠ []))

end Rendering

/-! ## Steps -/

namespace Lexeme

/-- The tokens that reading returns one after the other, from a place of the text to another. -/
inductive Steps : Nat → List Char → List Lexeme → Nat → List Char → Prop where
  | nil {position : Nat} {cs : List Char} : Steps position cs [] position cs
  | cons {position position' last : Nat} {cs rest back : List Char} {l : Lexeme} {ls : List Lexeme}
      (next : next position cs = .token l position' rest) (steps : Steps position' rest ls last back) :
      Steps position cs (l :: ls) last back

section

variable {position position' last : Nat} {cs rest back : List Char} {l : Lexeme} {ls : List Lexeme}
  {e : ReadError}

/-- Reading goes on behind what has been read. -/
theorem Steps.readFrom_eq (h : Steps position cs ls last back) :
    readFrom position cs = (readFrom last back).map (ls ++ ·) := by
  induction h with
  | @nil position cs => cases readFrom position cs <;> rfl
  | cons hnext _ ih =>
    rw [readFrom_of_token hnext, ih, Except.map_map]
    rfl

/-- Reading returns all tokens if the text is at its end behind them. -/
theorem readFrom_ok_iff :
    readFrom position cs = .ok ls ↔
      ∃ last back, Steps position cs ls last back ∧ next last back = .finished := by
  constructor
  · intro h
    fun_induction readFrom position cs generalizing ls with
    | case1 position cs hnext =>
      obtain rfl : [] = ls := by simpa using h
      exact ⟨position, cs, .nil, hnext⟩
    | case2 => simp at h
    | case3 position cs l position' rest hnext ms hrest ih =>
      obtain rfl : l :: ms = ls := by simpa [hrest] using h
      obtain ⟨last, back, hsteps, hfinished⟩ := ih hrest
      exact ⟨last, back, .cons hnext hsteps, hfinished⟩
    | case4 => simp_all
  · rintro ⟨last, back, hsteps, hfinished⟩
    rw [hsteps.readFrom_eq, readFrom_of_finished hfinished]
    simp [Except.map]

/-- Reading fails if there is an error behind the tokens that it has returned. -/
theorem readFrom_error_iff :
    readFrom position cs = .error e ↔
      ∃ ls last back position' rest, Steps position cs ls last back
        ∧ next last back = .failed e position' rest := by
  constructor
  · intro h
    fun_induction readFrom position cs with
    | case1 => simp at h
    | case2 position cs e' position' rest hnext =>
      obtain rfl : e' = e := by simpa using h
      exact ⟨[], position, cs, position', rest, .nil, hnext⟩
    | case3 => simp_all
    | case4 position cs l position' rest hnext e' hrest ih =>
      obtain rfl : e' = e := by simpa [hrest] using h
      obtain ⟨ls, last, back, position'', rest', hsteps, hfailed⟩ := ih hrest
      exact ⟨l :: ls, last, back, position'', rest', .cons hnext hsteps, hfailed⟩
  · rintro ⟨ls, last, back, position', rest, hsteps, hfailed⟩
    rw [hsteps.readFrom_eq, readFrom_of_failed hfailed]
    rfl

end

end Lexeme

/-! ## Rows of pieces -/

namespace Piece

open Lexeme

variable {p : Piece} {ps : List Piece} {position position' last : Nat} {cs rest back : List Char}
  {l : Lexeme}
  {ls : List Lexeme}

/-- A piece is read as its token, if that does not go on with what stands behind it. -/
theorem next_eq (p : Piece) (stop : Stops p.token rest) (position : Nat) :
    next position (p.chars ++ rest)
      = .token ⟨p.token, position + byteLength p.blanks⟩ (position + byteLength p.chars) rest := by
  have hstart := p.spells.stopsAt_isBlank rest
  rw [chars, List.append_assoc, next]
  simp only [takeWhile_append_stop p.areBlank hstart, dropWhile_append_stop p.areBlank hstart,
    Scan.of_spells p.spells stop, byteLength_append, Nat.add_assoc]

/-- Whatever token is read, it is that of a piece. -/
theorem exists_of_next (h : next position cs = .token l position' rest) :
    ∃ p : Piece, p.chars ++ rest = cs ∧ Stops p.token rest
      ∧ l = ⟨p.token, position + byteLength p.blanks⟩ ∧ position' = position + byteLength p.chars := by
  unfold next at h
  simp only at h
  split at h <;> simp only [Step.token.injEq, reduceCtorEq] at h
  next t spelling rest' hscan =>
  obtain ⟨rfl, rfl, rfl⟩ := h
  obtain ⟨hspells, hstop⟩ := Scan.spells_of hscan (stopsAt_dropWhile isBlank cs)
  have hblanks : ∀ c ∈ cs.takeWhile isBlank, isBlank c = true := List.all_eq_true.1 List.all_takeWhile
  refine ⟨⟨cs.takeWhile isBlank, t, spelling, hblanks, hspells⟩, ?_, hstop, rfl, ?_⟩
  · rw [chars, List.append_assoc, Scan.chars_of hscan, List.takeWhile_append_dropWhile]
  · rw [chars, byteLength_append, Nat.add_assoc]

theorem row_cons (p : Piece) (ps : List Piece) : row (p :: ps) = p.chars ++ row ps := rfl

/-- What has been read is a row of pieces that stand apart. -/
theorem steps_iff :
    Steps position cs ls last back ↔
      ∃ ps, row ps ++ back = cs ∧ Apart ps back ∧ lexemesFrom position ps = ls
        ∧ last = position + byteLength (row ps) := by
  constructor
  · intro h
    induction h with
    | nil => exact ⟨[], rfl, trivial, rfl, rfl⟩
    | cons hnext _ ih =>
      obtain ⟨p, rfl, hstop, rfl, rfl⟩ := exists_of_next hnext
      obtain ⟨ps, rfl, hapart, rfl, rfl⟩ := ih
      refine ⟨p :: ps, by rw [row_cons, List.append_assoc], ⟨hstop, hapart⟩, rfl, ?_⟩
      rw [row_cons, byteLength_append, Nat.add_assoc]
  · rintro ⟨ps, rfl, hapart, rfl, rfl⟩
    induction ps generalizing position with
    | nil => exact .nil
    | cons p ps ih =>
      obtain ⟨hstop, hapart⟩ := hapart
      rw [row_cons, List.append_assoc, byteLength_append, ← Nat.add_assoc]
      exact .cons (next_eq p hstop position) (ih hapart)

end Piece

/-- The text is at its end if nothing but blanks is left. -/
theorem Lexeme.next_finished_iff {position : Nat} {cs : List Char} :
    Lexeme.next position cs = .finished ↔ ∀ c ∈ cs, isBlank c = true := by
  have hnil : cs.dropWhile isBlank = [] ↔ ∀ c ∈ cs, isBlank c = true := List.dropWhile_eq_nil_iff
  rw [← hnil, Lexeme.next]
  cases hscan : Scan.of (cs.dropWhile isBlank) with
  | finished => simpa using Scan.of_finished hscan
  | _ =>
    refine iff_of_false (by simp) fun hempty => ?_
    rw [hempty] at hscan
    cases hscan

namespace Rendering

/-- A text is read as the lexemes of just the renderings that it is the text of. -/
theorem read_ok_iff {text : String} {ls : List Lexeme} :
    Lexeme.read text = .ok ls ↔ ∃ a : Rendering, a.Apart ∧ a.text = text ∧ a.lexemes = ls := by
  rw [Lexeme.read, Lexeme.readFrom_ok_iff]
  constructor
  · rintro ⟨last, back, hsteps, hfinished⟩
    obtain ⟨ps, hrow, hapart, hls, -⟩ := Piece.steps_iff.1 hsteps
    refine ⟨⟨ps, back, Lexeme.next_finished_iff.1 hfinished⟩, hapart, ?_, hls⟩
    rw [Rendering.text, Rendering.chars, hrow, String.ofList_toList]
  · rintro ⟨a, hapart, rfl, rfl⟩
    rw [Rendering.text, String.toList_ofList]
    exact ⟨_, a.trailing, Piece.steps_iff.2 ⟨a.pieces, rfl, hapart, rfl, rfl⟩,
      Lexeme.next_finished_iff.2 a.areBlank⟩

theorem read_text {a : Rendering} (h : a.Apart) : Lexeme.read a.text = .ok a.lexemes :=
  read_ok_iff.2 ⟨a, h, rfl, rfl⟩

theorem map_token_lexemes (a : Rendering) : a.lexemes.map Lexeme.token = a.tokens := by
  have of : ∀ (ps : List Piece) (position : Nat),
      (Piece.lexemesFrom position ps).map Lexeme.token = ps.map Piece.token := by
    intro ps
    induction ps with
    | nil => exact fun _ => rfl
    | cons p ps ih => exact fun position => by rw [Piece.lexemesFrom, List.map_cons, ih, List.map_cons]
  exact of a.pieces 0

end Rendering

/-! ## Names -/

/-- Every identifier of a text is a plain name. -/
theorem isPlain_of_read {text : String} {ls : List Lexeme} (h : Lexeme.read text = .ok ls) :
    ∀ l ∈ ls, ∀ name, l.token = .identifier name → IsPlain name := by
  intro l hl name hname
  obtain ⟨a, -, -, rfl⟩ := Rendering.read_ok_iff.1 h
  have htoken : l.token ∈ a.tokens := a.map_token_lexemes ▸ List.mem_map_of_mem hl
  obtain ⟨p, -, hp⟩ := List.mem_map.1 htoken
  have hspells : Spells (.identifier name) p.spelling := by
    rw [← hname, ← hp]
    exact p.spells
  exact (spells_identifier_iff.1 hspells).1

theorem isPlainName_iff {name : String} : isPlainName name = true ↔ IsPlain name := by
  constructor
  · intro h
    unfold isPlainName at h
    split at h
    · next l hread => exact isPlain_of_read hread l (by simp) name (by simpa using h)
    · simp at h
  · intro h
    have hlexes : Lexes name.toList [.identifier name] [] := Lexes.name h stopsAt_nil
    obtain ⟨ls, hread, htokens⟩ := hlexes.read
    rw [String.ofList_toList] at hread
    obtain ⟨l, rfl⟩ := List.length_eq_one_iff.1 (by simpa using congrArg List.length htokens)
    simp only [List.map_cons, List.map_nil, List.cons.injEq, and_true] at htokens
    simp [isPlainName, hread, htokens]

/-! ## Blanks between tokens -/

namespace Piece

/-- A token in front of blanks, or of nothing, goes on with neither. -/
theorem apart_of_blanks {ps : List Piece} {trailing : List Char} (h : ∀ p ∈ ps.tail, p.blanks ≠ [])
    (blank : ∀ c ∈ trailing, isBlank c = true) : Apart ps trailing := by
  induction ps with
  | nil => trivial
  | cons p ps ih =>
    refine ⟨fun _ => ?_, ih fun q hq => h q (List.mem_of_mem_tail hq)⟩
    cases ps with
    | nil =>
      cases trailing with
      | nil => exact stopsAt_nil
      | cons c cs => exact stopsAt_cons (continuesWord_of_isBlank (blank c List.mem_cons_self))
    | cons q ps =>
      obtain ⟨c, cs, hblanks⟩ := List.exists_cons_of_ne_nil (h q List.mem_cons_self)
      rw [row_cons, chars, hblanks]
      exact stopsAt_cons (continuesWord_of_isBlank (q.areBlank c (hblanks ▸ List.mem_cons_self)))

end Piece

namespace Rendering

variable {a b : Rendering}

theorem Spaced.apart (h : a.Spaced) : a.Apart :=
  Piece.apart_of_blanks h a.areBlank

/-- The filter of a text depends on its tokens alone. -/
theorem parse_congr (ha : a.Apart) (hb : b.Apart) (same : a.tokens = b.tokens) (f : Filter) :
    Filter.parse a.text = .ok f ↔ Filter.parse b.text = .ok f := by
  rw [Filter.parse_ok_iff, Filter.parse_ok_iff, read_text ha, read_text hb]
  simp only [Except.ok.injEq, exists_eq_left', map_token_lexemes, same]

/-- However the tokens are spelled, and whatever blanks stand between them, a text is read as those
tokens, each at the byte where its spelling starts, and two texts of the same tokens stand for the same
filter. -/
theorem spelling_immaterial (ha : a.Spaced) (hb : b.Spaced) (same : a.tokens = b.tokens) :
    Lexeme.read a.text = .ok a.lexemes ∧ Lexeme.read b.text = .ok b.lexemes
      ∧ ∀ f, Filter.parse a.text = .ok f ↔ Filter.parse b.text = .ok f :=
  ⟨read_text ha.apart, read_text hb.apart, parse_congr ha.apart hb.apart same⟩

/-- `name EQUALS 'it\'s'` -/
def printed : Rendering where
  pieces := [
    ⟨[], .identifier "name", "name".toList, by simp, spells_identifier_iff.2 ⟨⟨by decide, by decide⟩, rfl⟩⟩,
    ⟨[' '], .operator (.comparison .equals), "EQUALS".toList, List.all_eq_true.1 rfl, .word rfl rfl⟩,
    ⟨[' '], .literal (.string (String.ofList "it's".toList)), "'it\\'s'".toList, List.all_eq_true.1 rfl,
      .string (.inl rfl) (.plain (by decide) (by decide) (.plain (by decide) (by decide)
        (.escaped '\'' (.plain (by decide) (by decide) .nil))))⟩]
  trailing := []
  areBlank := by simp

/-- The same tokens with more blanks, in another case and other quotes, and a letter behind a backslash. -/
def loose : Rendering where
  pieces := [
    ⟨"\t".toList, .identifier "name", "name".toList, List.all_eq_true.1 rfl,
      spells_identifier_iff.2 ⟨⟨by decide, by decide⟩, rfl⟩⟩,
    ⟨"\u3000 ".toList, .operator (.comparison .equals), "eQuals".toList,
      List.all_eq_true.1 rfl, .word rfl rfl⟩,
    ⟨"\n".toList, .literal (.string (String.ofList "it's".toList)), "\"\\it's\"".toList,
      List.all_eq_true.1 rfl,
      .string (.inr rfl) (.escaped 'i' (.plain (by decide) (by decide) (.plain (by decide) (by decide)
        (.plain (by decide) (by decide) .nil))))⟩]
  trailing := [' ']
  areBlank := List.all_eq_true.1 rfl

theorem spelling_immaterial_loose :
    printed.tokens = loose.tokens ∧ Lexeme.read loose.text = .ok loose.lexemes
      ∧ loose.lexemes.map Lexeme.position = [1, 9, 16]
      ∧ ∀ f, Filter.parse printed.text = .ok f ↔ Filter.parse loose.text = .ok f := by
  obtain ⟨-, hread, hparse⟩ := spelling_immaterial (a := printed) (b := loose) (by decide) (by decide) rfl
  exact ⟨rfl, hread, by decide, hparse⟩

/-! ## Every token can be written -/

theorem escaped_all (quote : Char) (content : List Char) :
    Escaped quote content (content.flatMap fun c => ['\\', c]) := by
  induction content with
  | nil => exact .nil
  | cons c content ih => exact .escaped c ih

/-- But for names that are not plain. -/
theorem exists_spells {t : Token} (plain : ∀ name, t = .identifier name → isPlainName name = true) :
    ∃ cs, Spells t cs := by
  have hword : ∀ {w : String}, t.word? = some w → Spells t w.toList := fun hw =>
    .word hw (sameWord_iff.2 rfl)
  cases t with
  | identifier name => exact ⟨_, spells_identifier_iff.2 ⟨isPlainName_iff.1 (plain name rfl), rfl⟩⟩
  | literal v =>
    cases v with
    | string text =>
      have hspells := Spells.string (.inl rfl) (escaped_all '\'' text.toList)
      rw [String.ofList_toList] at hspells
      exact ⟨_, hspells⟩
    | number n => exact ⟨_, .number (Numeral.denotes_chars n)⟩
    | boolean b => cases b <;> exact ⟨_, hword rfl⟩
  | operator op => exact ⟨_, hword rfl⟩
  | and => exact ⟨_, hword rfl⟩
  | or => exact ⟨_, hword rfl⟩
  | openBracket => exact ⟨['('], .punctuation rfl⟩
  | closeBracket => exact ⟨[')'], .punctuation rfl⟩
  | colon => exact ⟨[':'], .punctuation rfl⟩
  | «at» => exact ⟨['@'], .punctuation rfl⟩

/-- Tokens whose names are plain can be written one behind the other. -/
theorem exists_spaced {ts : List Token} (plain : ∀ name, .identifier name ∈ ts → isPlainName name = true) :
    ∃ a : Rendering, a.Spaced ∧ a.tokens = ts := by
  have hpieces : ∃ ps : List Piece, (∀ p ∈ ps, p.blanks ≠ []) ∧ ps.map Piece.token = ts := by
    induction ts with
    | nil => exact ⟨[], by simp, rfl⟩
    | cons t ts ih =>
      obtain ⟨ps, hblanks, htokens⟩ := ih fun name hname => plain name (List.mem_cons_of_mem t hname)
      obtain ⟨cs, hspells⟩ := exists_spells fun name hname => plain name (hname ▸ List.mem_cons_self)
      refine ⟨⟨[' '], t, cs, List.all_eq_true.1 rfl, hspells⟩ :: ps, ?_, by rw [List.map_cons, htokens]⟩
      exact List.forall_mem_cons.2 ⟨by simp, hblanks⟩
  obtain ⟨ps, hblanks, htokens⟩ := hpieces
  exact ⟨⟨ps, [], by simp⟩, fun p hp => hblanks p (List.mem_of_mem_tail hp), htokens⟩

end Rendering

end TagQuery
