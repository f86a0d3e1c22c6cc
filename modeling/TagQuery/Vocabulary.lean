/-! Closed sets of words, and texts that may or may not be one of them.

A `Vocabulary` lists the words of a type with their spellings; no two share one.  Where a sender may use
words that are not known here, the value is an `Open` word, and no text is ever lost: `text_ofText`. -/

namespace TagQuery

/-- A type whose values are the words of a fixed list. -/
class Vocabulary (α : Type) where
  /-- The words, in the order in which they are listed. -/
  all : List α
  spelling : α → String
  mem_all : ∀ a, a ∈ all
  spelling_inj : ∀ a ∈ all, ∀ b ∈ all, spelling a = spelling b → a = b

/-- The word with this spelling. -/
def wordOf? (α : Type) [Vocabulary α] (text : String) : Option α :=
  Vocabulary.all.find? fun a => Vocabulary.spelling a == text

/-- A word that the vocabulary may lack. -/
inductive Open (α : Type) where
  | known (word : α)
  | other (text : String)
  deriving DecidableEq, Repr

namespace Open

variable {α : Type} [Vocabulary α]

/-- The word with this spelling, or the text itself where no word has it. -/
def ofText (text : String) : Open α :=
  match wordOf? α text with
  | some a => .known a
  | none => .other text

def text : Open α → String
  | .known a => Vocabulary.spelling a
  | .other t => t

def word? : Open α → Option α
  | .known a => some a
  | .other _ => none

end Open

/-! ## Lemmas -/

/-- What is looked up in a table of the known words. -/
theorem Open.bind_word?_eq_some_iff {α β : Type} {w : Open α} {table : α → Option β} {b : β} :
    w.word?.bind table = some b ↔ ∃ a, w = .known a ∧ table a = some b := by
  cases w <;> simp [Open.word?]

section

variable {α : Type} [Vocabulary α]

theorem spelling_of_wordOf? {text : String} {a : α} (h : wordOf? α text = some a) :
    Vocabulary.spelling a = text := by
  simpa using List.find?_some h

theorem wordOf?_spelling (a : α) : wordOf? α (Vocabulary.spelling a) = some a := by
  cases h : wordOf? α (Vocabulary.spelling a) with
  | none =>
    have := List.find?_eq_none.1 h a (Vocabulary.mem_all a)
    simp at this
  | some b =>
    rw [Vocabulary.spelling_inj b (Vocabulary.mem_all b) a (Vocabulary.mem_all a)
      (spelling_of_wordOf? h)]

@[simp] theorem Open.text_ofText (text : String) : (Open.ofText text : Open α).text = text := by
  unfold Open.ofText
  split
  · exact spelling_of_wordOf? (by assumption)
  · rfl

@[simp] theorem Open.ofText_spelling (a : α) :
    (Open.ofText (Vocabulary.spelling a) : Open α) = .known a := by
  simp [Open.ofText, wordOf?_spelling]

end

end TagQuery
