import TagQuery.Proofs.Filter.LimitErrors
import TagQuery.Proofs.Filter.Tokenizing
import TagQuery.Proofs.Text.EditDistance

/-!
# Suggested operators

A name that stands where an operator has to stand is an unknown operator.  What is suggested for it is
the first of the operators whose names the word, in upper case, becomes with the fewest changes, if
three of them are enough (`Suggests`).  A word that needs none would have been read as the operator.

    (∀ op, ¬Reaches word 0 op) → (Suggests word s ↔ s = suggestOperator word)             (suggests_iff)
    step s l = .error (.unknownOperator word suggestion position) ↔ …            (step_unknownOperator_iff)
    parse text = .error (.unknownOperator word s position) ↔ … ∧ Suggests word s  (nearest_operator_suggested)
-/

namespace TagQuery

open Text Grammar

/-! ## The nearest operator -/

/-- The word, in upper case, becomes the name of the operator with `n` changes. -/
def Reaches (word : String) (n : Nat) (op : Operator) : Prop :=
  Changes n (upper word.toList) op.name.toList

/-- No operator takes fewer changes than `n`, and the operator is the first of those that take as many. -/
structure IsNearest (word : String) (n : Nat) (op : Operator) : Prop where
  reached : Reaches word n op
  fewest : ∀ m p, Reaches word m p → n ≤ m
  first : ∃ earlier later, Operator.all = earlier ++ op :: later ∧ ∀ p ∈ earlier, ¬Reaches word n p

/-- An operator is suggested if one is at most three changes off, and then it is the nearest one. -/
structure Suggests (word : String) (suggestion : Option Operator) : Prop where
  close : suggestion.isSome = true ↔ ∃ n op, n ≤ 3 ∧ Reaches word n op
  nearest : ∀ op ∈ suggestion, ∃ n, IsNearest word n op

/-- All items before the first minimum weigh more. -/
theorem firstMinimum_split {α : Type} {weight : α → Nat} {as : List α} {a : α}
    (h : firstMinimum weight as = some a) :
    ∃ earlier later, as = earlier ++ a :: later ∧ ∀ b ∈ earlier, weight a < weight b := by
  induction as generalizing a with
  | nil => simp [firstMinimum] at h
  | cons c cs ih =>
    simp only [firstMinimum] at h
    cases hmin : firstMinimum weight cs with
    | none =>
      rw [hmin] at h
      obtain rfl := Option.some.inj h
      exact ⟨[], cs, rfl, by simp⟩
    | some b =>
      rw [hmin] at h
      by_cases hlt : weight b < weight c
      · simp only [hlt, if_true] at h
        obtain rfl := Option.some.inj h
        obtain ⟨earlier, later, rfl, hmore⟩ := ih hmin
        exact ⟨c :: earlier, later, rfl, List.forall_mem_cons.2 ⟨hlt, hmore⟩⟩
      · simp only [hlt, if_false] at h
        obtain rfl := Option.some.inj h
        exact ⟨[], cs, rfl, by simp⟩

section

variable {word : String} {m n : Nat} {op p : Operator} {s s' : Option Operator}

theorem reaches_editDistance (word : String) (op : Operator) :
    Reaches word (editDistance (upper word.toList) op.name.toList) op :=
  (editDistance_eq_iff.1 rfl).1

theorem editDistance_le_of_reaches (h : Reaches word n op) :
    editDistance (upper word.toList) op.name.toList ≤ n :=
  (editDistance_eq_iff.1 rfl).2 h

/-- The first minimum of the distances is the nearest operator. -/
theorem isNearest_firstMinimum
    (h : firstMinimum (fun op : Operator => editDistance (upper word.toList) op.name.toList) Operator.all
      = some op) :
    IsNearest word (editDistance (upper word.toList) op.name.toList) op := by
  refine ⟨reaches_editDistance word op, fun m p hp => ?_, ?_⟩
  · have hmin := (firstMinimum_le h).2 p (Vocabulary.mem_all p)
    exact Nat.le_trans hmin (editDistance_le_of_reaches hp)
  · obtain ⟨earlier, later, hall, hmore⟩ := firstMinimum_split h
    refine ⟨earlier, later, hall, fun p hp hreached => ?_⟩
    have hle := editDistance_le_of_reaches hreached
    have hlt := hmore p hp
    omega

theorem IsNearest.unique (h : IsNearest word n op) (h' : IsNearest word m p) : op = p := by
  obtain rfl : n = m := Nat.le_antisymm (h.fewest m p h'.reached) (h'.fewest n op h.reached)
  obtain ⟨earlier, later, hall, hnone⟩ := h.first
  obtain ⟨earlier', later', hall', hnone'⟩ := h'.first
  rw [hall] at hall'
  -- one of the two is among those before the other, or they stand at the same place
  rcases List.append_eq_append_iff.1 hall' with ⟨as, rfl, has⟩ | ⟨as, rfl, has⟩
  · cases as with
    | nil => exact (List.cons.inj has).1
    | cons q as =>
      obtain ⟨rfl, -⟩ := List.cons.inj has
      exact absurd h.reached (hnone' op (by simp))
  · cases as with
    | nil => exact (List.cons.inj has).1.symm
    | cons q as =>
      obtain ⟨rfl, -⟩ := List.cons.inj has
      exact absurd h'.reached (hnone p (by simp))

theorem Suggests.unique (h : Suggests word s) (h' : Suggests word s') : s = s' := by
  have hsome : s.isSome = true ↔ s'.isSome = true := h.close.trans h'.close.symm
  cases s with
  | none =>
    cases s' with
    | none => rfl
    | some p => simp at hsome
  | some op =>
    cases s' with
    | none => simp at hsome
    | some p =>
      obtain ⟨n, hop⟩ := h.nearest op rfl
      obtain ⟨m, hp⟩ := h'.nearest p rfl
      rw [hop.unique hp]

/-- A word that is no operator's gets the nearest operator suggested. -/
theorem suggests_suggestOperator (other : ∀ op, ¬Reaches word 0 op) :
    Suggests word (suggestOperator word) := by
  cases hmin : firstMinimum (fun op : Operator => editDistance (upper word.toList) op.name.toList)
      Operator.all with
  | none => exact absurd (firstMinimum_eq_none_iff.1 hmin) (by decide)
  | some op =>
    have hnearest := isNearest_firstMinimum hmin
    have hpos : 0 < editDistance (upper word.toList) op.name.toList := by
      by_contra hzero
      have hreached := hnearest.reached
      rw [Nat.eq_zero_of_not_pos hzero] at hreached
      exact other op hreached
    by_cases hle : editDistance (upper word.toList) op.name.toList ≤ 3
    · have hsuggest : suggestOperator word = some op := by
        simp [suggestOperator, hmin, hpos, hle, maxSuggestionDistance]
      rw [hsuggest]
      refine ⟨iff_of_true rfl ⟨_, op, hle, hnearest.reached⟩, fun p hp => ?_⟩
      obtain rfl := Option.some.inj hp
      exact ⟨_, hnearest⟩
    · have hsuggest : suggestOperator word = none := by
        simp [suggestOperator, hmin, hle, maxSuggestionDistance]
      rw [hsuggest]
      refine ⟨iff_of_false (by simp) ?_, nofun⟩
      rintro ⟨n, p, hn, hp⟩
      have hfewest := hnearest.fewest n p hp
      omega

theorem suggests_iff (other : ∀ op, ¬Reaches word 0 op) : Suggests word s ↔ s = suggestOperator word := by
  constructor
  · intro h
    exact h.unique (suggests_suggestOperator other)
  · rintro rfl
    exact suggests_suggestOperator other

end

/-! ## Names are no operators -/

/-- A name becomes an operator's only with a change, as it would have been read as the operator. -/
theorem not_reaches_of_isPlain {word : String} (h : IsPlain word) (op : Operator) : ¬Reaches word 0 op := by
  intro hreached
  have hsame : sameWord word.toList op.name.toList = true := by
    rw [sameWord_iff, upper_operator]
    exact changes_zero_iff.1 hreached
  have htoken := (ofWord_of_sameWord (t := .operator op) rfl hsame).2
  rw [h.2] at htoken
  simp at htoken

/-! ## Where an operator has to stand -/

/-- An operator can go on with the tokens. -/
def Grammar.AwaitsOperator (ts : List Token) : Prop :=
  ∃ op, Begins (ts ++ [.operator op])

theorem Grammar.AwaitsOperator.begins {ts : List Token} (h : AwaitsOperator ts) : Begins ts := by
  obtain ⟨op, us, f, hf⟩ := h
  exact ⟨.operator op :: us, f, by simpa using hf⟩

namespace Parser

variable {m : Limits} {s s' : State} {l : Lexeme} {ls : List Lexeme} {word : String}
  {suggestion : Option Operator} {position : Nat}

/-- The parser complains of an operator behind an entity, where it finds a name, and nowhere else. -/
theorem step_unknownOperator_iff :
    step s l = .error (.unknownOperator word suggestion position) ↔
      (∃ e, s.phase = .entity e) ∧ l = ⟨.identifier word, position⟩
        ∧ suggestion = suggestOperator word := by
  constructor
  · intro h
    obtain ⟨t, place⟩ := l
    obtain ⟨rfl, rfl⟩ : t = .identifier word ∧ place = position := by
      cases refusal_of_step h with
      | operator token => exact ⟨token, rfl⟩
    cases hphase : s.phase with
    | entity e =>
      simp only [step, hphase, stepEntity, Except.error.injEq, ReadError.unknownOperator.injEq] at h
      exact ⟨⟨e, rfl⟩, rfl, h.2.1.symm⟩
    | operand =>
      simp only [step, hphase, stepOperand] at h
      split at h <;> simp at h
    | key e => simp [step, hphase] at h
    | origin e =>
      simp only [step, hphase] at h
      split at h <;> simp at h
    | value e op place => simp [step, hphase] at h
    | noValue e op place =>
      simp only [step, hphase, stepAfter] at h
      split at h <;> simp at h
    | after o =>
      simp only [step, hphase, stepAfter] at h
      split at h <;> simp at h
  · rintro ⟨⟨e, hphase⟩, rfl, rfl⟩
    simp only [step, hphase, stepEntity]

/-- The parser is behind an entity just where an operator can stand. -/
theorem awaitsOperator_iff (h : Runs m .initial ls s) :
    AwaitsOperator (ls.map Lexeme.token) ↔ ∃ e, s.phase = .entity e := by
  constructor
  · rintro ⟨op, hbegins⟩
    obtain ⟨n, s', hstep⟩ := step_of_begins (l := ⟨.operator op, 0⟩) h (by simpa using hbegins)
    cases hstep with
    | comparison phase => exact ⟨_, phase⟩
    | test phase => exact ⟨_, phase⟩
    | _ => simp_all
  · rintro ⟨e, hphase⟩
    have hstep : Step m s ⟨.operator (.test .isEmpty), 0⟩ { s with phase := .noValue e .isEmpty 0 } :=
      .test hphase rfl
    exact ⟨_, by simpa using (h.append (Runs.singleton_iff.2 hstep)).begins⟩

/-- Tokens that can be gone on with and break no limit are taken. -/
theorem run_of_begins (h : Begins (ls.map Lexeme.token)) (within : ∀ e, ¬Offence ls e) :
    ∃ s, Runs .standard .initial ls s := by
  obtain ⟨m, s, hwide⟩ := begins_iff.1 h
  cases hrun : run .initial ls with
  | ok s => exact ⟨s, run_ok_iff.1 hrun⟩
  | error e => exact absurd (firstOffence_of_run hwide hrun).offence (within e)

theorem finish_ne_unknownOperator (size : Nat) (s : State) :
    finish size s ≠ .error (.unknownOperator word suggestion position) := by
  intro h
  unfold finish at h
  split at h <;> try simp at h
  all_goals
    unfold finishAfter at h
    split at h <;> simp at h

end Parser

theorem Unreadable.kind_eq {position : Nat} {cs : List Char} {e : ReadError}
    (h : Unreadable position cs e) : e.kind = .lexical := by
  cases h <;> rfl

/-- A text fails as tokens for lexical reasons only. -/
theorem Lexeme.kind_of_read {text : String} {e : ReadError} (h : Lexeme.read text = .error e) :
    e.kind = .lexical := by
  obtain ⟨ls, position, cs, stop, rest, -, hfailed⟩ := Lexeme.readFrom_error_iff.1 h
  exact (Lexeme.unreadable_of_failed hfailed).kind_eq

/-- No name in a text is an operator's. -/
theorem not_reaches_of_read {text : String} {ls : List Lexeme} {l : Lexeme} {word : String}
    (read : Lexeme.read text = .ok ls) (hl : l ∈ ls) (token : l.token = .identifier word) (op : Operator) :
    ¬Reaches word 0 op :=
  not_reaches_of_isPlain (isPlain_of_read read l hl word token) op

namespace Filter

open TagQuery.Parser

section

variable {text word : String} {suggestion : Option Operator} {position : Nat}

/-- A text has an unknown operator where a name stands in the place of an operator, behind tokens that
break no limit. -/
theorem parse_unknownOperator_iff :
    parse text = .error (.unknownOperator word suggestion position) ↔
      ∃ before after, Lexeme.read text = .ok (before ++ ⟨.identifier word, position⟩ :: after)
        ∧ AwaitsOperator (before.map Lexeme.token) ∧ (∀ e, ¬Offence before e)
        ∧ suggestion = suggestOperator word := by
  constructor
  · intro h
    cases hread : Lexeme.read text with
    | error e =>
      rw [parse, hread] at h
      obtain rfl := Except.error.inj h
      exact absurd (Lexeme.kind_of_read hread) (by simp [ReadError.kind])
    | ok ls =>
      rw [parse, hread] at h
      change ofLexemes text.utf8ByteSize ls = _ at h
      rw [ofLexemes] at h
      split at h
      · simp at h
      · cases hrun : run .initial ls with
        | ok s =>
          rw [hrun] at h
          exact absurd h (finish_ne_unknownOperator _ s)
        | error e =>
          rw [hrun] at h
          obtain rfl := Except.error.inj h
          obtain ⟨before, l, after, s, rfl, hbefore, hstep⟩ := run_error hrun
          obtain ⟨hphase, rfl, hsuggestion⟩ := step_unknownOperator_iff.1 hstep
          have hruns := run_ok_iff.1 hbefore
          exact ⟨before, after, rfl, (awaitsOperator_iff hruns).2 hphase,
            fun e => not_offence_of_runs hruns, hsuggestion⟩
  · rintro ⟨before, after, hread, hawaits, hwithin, hsuggestion⟩
    obtain ⟨s, hruns⟩ := run_of_begins hawaits.begins hwithin
    have hstep : step s ⟨.identifier word, position⟩
        = .error (.unknownOperator word suggestion position) :=
      step_unknownOperator_iff.2 ⟨(awaitsOperator_iff hruns).1 hawaits, rfl, hsuggestion⟩
    rw [parse, hread]
    change ofLexemes text.utf8ByteSize _ = _
    rw [ofLexemes, if_neg (by simp), run_append, run_ok_iff.2 hruns, Except.ok_bind, run_cons, hstep]
    rfl

end

/-- **The nearest operator is suggested.**  A text has an unknown operator if and only if a name stands
where an operator can, behind tokens that break no limit; and what is suggested is the first of the
operators whose names take the fewest changes, if three are enough.  No name in any text is an
operator's without a change. -/
theorem nearest_operator_suggested :
    (∀ (text word : String) (suggestion : Option Operator) (position : Nat),
        parse text = .error (.unknownOperator word suggestion position) ↔
          ∃ before after, Lexeme.read text = .ok (before ++ ⟨.identifier word, position⟩ :: after)
            ∧ AwaitsOperator (before.map Lexeme.token) ∧ (∀ e, ¬Offence before e)
            ∧ Suggests word suggestion)
      ∧ ∀ (text : String) (ls : List Lexeme), Lexeme.read text = .ok ls →
          ∀ l ∈ ls, ∀ word, l.token = .identifier word → ∀ n op, Reaches word n op → 0 < n := by
  constructor
  · intro text word suggestion position
    have hsuggests : ∀ {before after : List Lexeme},
        Lexeme.read text = .ok (before ++ ⟨.identifier word, position⟩ :: after) →
          (Suggests word suggestion ↔ suggestion = suggestOperator word) :=
      fun hread =>
        suggests_iff (not_reaches_of_read (l := ⟨.identifier word, position⟩) hread (by simp) rfl)
    rw [parse_unknownOperator_iff]
    constructor
    · rintro ⟨before, after, hread, hawaits, hwithin, h⟩
      exact ⟨before, after, hread, hawaits, hwithin, (hsuggests hread).2 h⟩
    · rintro ⟨before, after, hread, hawaits, hwithin, h⟩
      exact ⟨before, after, hread, hawaits, hwithin, (hsuggests hread).1 h⟩
  · intro text ls hread l hl word hword n op hn
    refine Nat.pos_of_ne_zero ?_
    rintro rfl
    exact not_reaches_of_read hread hl hword op hn

/-- Three changes make `STS_WITH` either of two operators, of which the first is suggested. -/
theorem nearest_operator_suggested_tie :
    parse "a:k@src sts_with 'x'"
        = .error (.unknownOperator "sts_with" (some (.comparison .startsWith)) 8)
      ∧ IsNearest "sts_with" 3 (.comparison .startsWith) ∧ Reaches "sts_with" 3 (.comparison .endsWith)
      ∧ ∀ n op, Reaches "sts_with" n op → 0 < n := by
  have hparse : parse "a:k@src sts_with 'x'"
      = .error (.unknownOperator "sts_with" (some (.comparison .startsWith)) 8) := by decide +kernel
  obtain ⟨before, after, hread, -, -, hsuggests⟩ := (nearest_operator_suggested.1 _ _ _ _).1 hparse
  have hpositive := nearest_operator_suggested.2 _ _ hread ⟨.identifier "sts_with", 8⟩ (by simp) _ rfl
  have hends : Reaches "sts_with" 3 (.comparison .endsWith) :=
    reaches_editDistance "sts_with" (.comparison .endsWith)
  obtain ⟨n, hnearest⟩ := hsuggests.nearest _ rfl
  have hle : n ≤ 3 := hnearest.fewest 3 _ hends
  have hge : 3 ≤ n := editDistance_le_of_reaches hnearest.reached
  obtain rfl : n = 3 := Nat.le_antisymm hle hge
  exact ⟨hparse, hnearest, hends, hpositive⟩

end Filter

end TagQuery
