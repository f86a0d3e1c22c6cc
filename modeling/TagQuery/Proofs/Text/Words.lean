import Mathlib.Tactic.IntervalCases
import TagQuery.Number.Literal
import TagQuery.Text.Blank

/-!
# Where words end

A run of characters of one class is found again in front of anything that does not go on with that
class:

    (∀ c ∈ cs, p c) → StopsAt p rest → (cs ++ rest).takeWhile p = cs     (takeWhile_append_stop)

`StopsAt continuesWord` is what the text behind a word, a keyword or a number has to satisfy.  It then
goes on with none of the characters of a number either (`StopsAt.isDigit`, `StopsAt.ne`).
-/

namespace TagQuery.Text

/-- The text does not start with a character of the class `p`. -/
def StopsAt (p : Char → Bool) (rest : List Char) : Prop :=
  ∀ c ∈ rest.head?, p c = false

/-! ## Runs of characters -/

section

variable {p : Char → Bool} {cs rest : List Char}

theorem stopsAt_nil : StopsAt p [] := by
  intro c hc
  simp at hc

theorem stopsAt_cons {c : Char} (h : p c = false) : StopsAt p (c :: rest) := by
  intro d hd
  obtain rfl : c = d := by simpa using hd
  exact h

theorem StopsAt.takeWhile_eq_nil (stop : StopsAt p rest) : rest.takeWhile p = [] := by
  cases rest with
  | nil => rfl
  | cons c rest => rw [List.takeWhile_cons_of_neg (by simp [stop c rfl])]

theorem StopsAt.dropWhile_eq (stop : StopsAt p rest) : rest.dropWhile p = rest := by
  cases rest with
  | nil => rfl
  | cons c rest => rw [List.dropWhile_cons_of_neg (by simp [stop c rfl])]

theorem takeWhile_append_stop (h : ∀ c ∈ cs, p c = true) (stop : StopsAt p rest) :
    (cs ++ rest).takeWhile p = cs := by
  rw [List.takeWhile_append_of_pos h, stop.takeWhile_eq_nil, List.append_nil]

theorem dropWhile_append_stop (h : ∀ c ∈ cs, p c = true) (stop : StopsAt p rest) :
    (cs ++ rest).dropWhile p = rest := by
  rw [List.dropWhile_append_of_pos h, stop.dropWhile_eq]

/-- What is left when a run is over does not go on with it. -/
theorem stopsAt_dropWhile (p : Char → Bool) (cs : List Char) : StopsAt p (cs.dropWhile p) := by
  intro c hc
  have h := List.head?_dropWhile_not p cs
  rw [Option.mem_def.1 hc] at h
  simpa using h

end

/-! ## Letters, digits and the marks of a word -/

/-- The ten digits, one by one. -/
theorem mem_of_isDigit {c : Char} (h : isDigit c = true) :
    c ∈ ['0', '1', '2', '3', '4', '5', '6', '7', '8', '9'] := by
  obtain ⟨hlow, hup⟩ := Char.isDigit_iff_toNat.1 h
  rw [← Char.ofNat_toNat c]
  generalize c.toNat = n at hlow hup
  simp only [Char.reduceToNat] at hlow hup
  interval_cases n <;> decide

/-- A digit goes on with a word, starts none, and is no blank. -/
theorem classes_of_isDigit {c : Char} (h : isDigit c = true) :
    continuesWord c = true ∧ startsWord c = false ∧ isBlank c = false := by
  have all : ['0', '1', '2', '3', '4', '5', '6', '7', '8', '9'].all
      (fun d => continuesWord d && !startsWord d && !isBlank d) = true := by decide
  have hc := List.all_eq_true.1 all c (mem_of_isDigit h)
  simpa [and_assoc] using hc

/-- No blank goes on with a word. -/
theorem continuesWord_of_isBlank {c : Char} (h : isBlank c = true) : continuesWord c = false := by
  have all : blankRanges.all (fun r =>
      (List.range' r.1 (r.2 + 1 - r.1)).all fun n => !continuesWord (Char.ofNat n)) = true := by
    decide +kernel
  obtain ⟨r, hr, hlow, hup⟩ := covered_iff.1 h
  have hmem : c.toNat ∈ List.range' r.1 (r.2 + 1 - r.1) := List.mem_range'_1.2 (by omega)
  have hc := List.all_eq_true.1 (List.all_eq_true.1 all r hr) _ hmem
  rw [Char.ofNat_toNat] at hc
  simpa using hc

namespace StopsAt

variable {rest : List Char}

/-- What does not go on with a word does not go on with a number. -/
theorem isDigit (stop : StopsAt continuesWord rest) : StopsAt isDigit rest := by
  intro c hc
  cases hd : TagQuery.isDigit c with
  | false => rfl
  | true => simpa [(classes_of_isDigit hd).1] using stop c hc

theorem ne {c d : Char} {cs : List Char} (stop : StopsAt continuesWord (c :: cs))
    (h : continuesWord d = true) : c ≠ d := by
  rintro rfl
  simpa [h] using stop c rfl

end StopsAt

end TagQuery.Text
