import TagQuery.Proofs.Filter.Beginnings

/-!
# Where errors are found

The parser stops at the first token that breaks the grammar: all tokens before it begin a filter, and
with it they do not.  `Marks size ls e` says this of the error `e` for each kind of error, on the tokens
`ls` of a text of `size` bytes alone:

    step s l = .error e → Refusal s l e                                              (refusal_of_step)
    Runs m .initial ls s → s.outer = (p, k) :: outer → InnermostOpen ls p            (innermost_of_runs)
    Lexeme.read text = .ok ls → ls ≠ [] → Filter.parse text = .error e → Marks text.utf8ByteSize ls e
                                                                        (errors_mark_first_break)
-/

namespace TagQuery

namespace Grammar

/-! ## What an error says about the tokens -/

/-- Each bracket is closed behind the place where it is opened, and none is closed that is not open. -/
structure Matched (ts : List Token) : Prop where
  balanced : ts.count .openBracket = ts.count .closeBracket
  opened : ∀ us vs, ts = us ++ vs → us.count .closeBracket ≤ us.count .openBracket

/-- The innermost of the brackets that are still open starts at the byte `position`. -/
def InnermostOpen (ls : List Lexeme) (position : Nat) : Prop :=
  ∃ before inside, ls = before ++ ⟨.openBracket, position⟩ :: inside
    ∧ Matched (inside.map Lexeme.token)

/-- The tokens up to the one at `position` begin a filter, with it they do not; it satisfies `found`. -/
def FirstBreak (ls : List Lexeme) (position : Nat) (found : Token → Prop) : Prop :=
  ∃ before l after, ls = before ++ l :: after ∧ l.position = position ∧ found l.token
    ∧ Begins (before.map Lexeme.token) ∧ ¬Begins ((before ++ [l]).map Lexeme.token)

/-- The tokens begin a filter, but they are none yet. -/
def Unfinished (ls : List Lexeme) : Prop :=
  Begins (ls.map Lexeme.token) ∧ ¬∃ f, IsFilter (ls.map Lexeme.token) f

/-- What an error says about the tokens `ls` of a text of `size` bytes. -/
def Marks (size : Nat) (ls : List Lexeme) : ReadError → Prop
  | .unexpectedToken found _ position => FirstBreak ls position fun t => t = found
  | .unknownOperator word _ position | .unknownOrigin word position =>
    FirstBreak ls position fun t => t = .identifier word
  | .wrongArity op position =>
    ∃ before after, ls = before ++ ⟨.operator op, position⟩ :: after
      ∧ Begins ((before ++ [⟨.operator op, position⟩]).map Lexeme.token)
      ∧ ∀ l rest, after = l :: rest →
        ¬Begins ((before ++ [⟨.operator op, position⟩, l]).map Lexeme.token)
  | .unexpectedEnd _ position => position = size ∧ Unfinished ls
  | .unclosedBracket position => InnermostOpen ls position ∧ Unfinished ls
  | .nestedTooDeep position | .tooManyConditions position =>
    ∃ before l after, ls = before ++ l :: after ∧ l.position = position
      ∧ Begins (before.map Lexeme.token)
  | .unexpectedCharacter .. | .unterminatedString _ | .invalidNumber .. | .emptyFilter => False

/-! ## Matched brackets -/

theorem matched_nil : Matched [] where
  balanced := rfl
  opened us vs h := by simp [(List.append_eq_nil_iff.1 h.symm).1]

/-- A token that is no bracket. -/
theorem matched_other {t : Token} (h : t ≠ .openBracket) (h' : t ≠ .closeBracket) : Matched [t] where
  balanced := by simp [h, h']
  opened us vs hts := by
    rcases List.append_eq_singleton_iff.1 hts.symm with ⟨rfl, -⟩ | ⟨rfl, -⟩ <;> simp [h, h']

theorem Matched.append {ts us : List Token} (h : Matched ts) (h' : Matched us) :
    Matched (ts ++ us) where
  balanced := by rw [List.count_append, List.count_append, h.balanced, h'.balanced]
  opened vs ws hvs := by
    rcases List.append_eq_append_iff.1 hvs with ⟨as, rfl, hus⟩ | ⟨bs, rfl, -⟩
    · have hle := h'.opened as ws hus
      rw [List.count_append, List.count_append, h.balanced]
      omega
    · exact h.opened vs bs rfl

/-- Tokens in a pair of brackets. -/
theorem Matched.group {ts : List Token} (h : Matched ts) :
    Matched (.openBracket :: (ts ++ [.closeBracket])) where
  balanced := by
    have hbalanced := h.balanced
    simp [hbalanced]
  opened us vs hus := by
    cases us with
    | nil => simp
    | cons u us =>
      obtain ⟨rfl, hts⟩ := List.cons.inj hus
      rcases List.append_eq_append_iff.1 hts with ⟨as, rfl, has⟩ | ⟨bs, rfl, -⟩
      · have hclosed := congrArg (List.count .closeBracket) has
        have hbalanced := h.balanced
        simp at hclosed
        simp
        omega
      · have hle := h.opened us bs rfl
        simp
        omega

end Grammar

namespace Parser

open Grammar

/-! ## Steps that cannot be taken -/

/-- A step that some limits allow is taken, or it is the limits of the parser that forbid it. -/
theorem step_of_wider {m : Limits} {s s' : State} {l : Lexeme} (h : Step m s l s') :
    step s l = .ok s' ∨ step s l = .error (.nestedTooDeep l.position)
      ∨ step s l = .error (.tooManyConditions l.position) := by
  cases h with
  | openBracket phase token =>
    by_cases hfits : s.outer.length < maxDepth
    · exact .inl (step_of (.openBracket phase token hfits))
    · exact .inr (.inl (by simp [step, stepOperand, phase, token, Nat.not_lt.1 hfits]))
  | name phase token =>
    by_cases hfits : s.conditions < maxConditions
    · exact .inl (step_of (.name phase token hfits))
    · exact .inr (.inr (by simp [step, stepOperand, phase, token, Nat.not_lt.1 hfits]))
  | colon phase token key origin => exact .inl (step_of (.colon phase token key origin))
  | key phase token => exact .inl (step_of (.key phase token))
  | «at» phase token origin => exact .inl (step_of (.at phase token origin))
  | origin phase token => exact .inl (step_of (.origin phase token))
  | comparison phase token => exact .inl (step_of (.comparison phase token))
  | test phase token => exact .inl (step_of (.test phase token))
  | value phase token => exact .inl (step_of (.value phase token))
  | and behind token => exact .inl (step_of (.and behind token))
  | or behind token => exact .inl (step_of (.or behind token))
  | closeBracket behind token bracket => exact .inl (step_of (.closeBracket behind token bracket))

/-- Why the token `l` cannot stand behind what has led to the state `s`. -/
inductive Refusal (s : State) (l : Lexeme) : ReadError → Prop where
  | nesting : Refusal s l (.nestedTooDeep l.position)
  | conditions : Refusal s l (.tooManyConditions l.position)
  | unexpected (wanted : Wanted) : Refusal s l (.unexpectedToken l.token wanted l.position)
  | operator {word : String} (token : l.token = .identifier word) (suggestion : Option Operator) :
      Refusal s l (.unknownOperator word suggestion l.position)
  | origin {word : String} (token : l.token = .identifier word) :
      Refusal s l (.unknownOrigin word l.position)
  | comparison {e : Entity} {op : Comparison} {position : Nat}
      (phase : s.phase = .value e op position) : Refusal s l (.wrongArity (.comparison op) position)
  | test {e : Entity} {op : Test} {position : Nat} (phase : s.phase = .noValue e op position) :
      Refusal s l (.wrongArity (.test op) position)

section

variable {s : State} {l : Lexeme} {e : ReadError}

theorem refusal_of_stepOperand (h : stepOperand s l = .error e) : Refusal s l e := by
  unfold stepOperand at h
  split at h
  · split at h
    · obtain rfl := Except.error.inj h
      exact .nesting
    · simp at h
  · split at h
    · obtain rfl := Except.error.inj h
      exact .conditions
    · split at h
      · simp at h
      · obtain rfl := Except.error.inj h
        exact .unexpected _

theorem refusal_of_stepEntity {entity : Entity} (h : stepEntity s entity l = .error e) :
    Refusal s l e := by
  unfold stepEntity at h
  simp only at h
  split at h
  · split at h
    · simp at h
    · obtain rfl := Except.error.inj h
      exact .unexpected _
  · split at h
    · simp at h
    · obtain rfl := Except.error.inj h
      exact .unexpected _
  · simp at h
  · simp at h
  · next htoken =>
    obtain rfl := Except.error.inj h
    exact .operator htoken _
  · obtain rfl := Except.error.inj h
    exact .unexpected _

theorem refusal_of_stepAfter {o : Operand} (h : stepAfter s o l = .error e) : Refusal s l e := by
  unfold stepAfter at h
  split at h
  · simp at h
  · simp at h
  · simp at h
  all_goals
    obtain rfl := Except.error.inj h
    exact .unexpected _

/-- What the parser says of a token that it does not take. -/
theorem refusal_of_step (h : step s l = .error e) : Refusal s l e := by
  unfold step at h
  split at h
  · exact refusal_of_stepOperand h
  · exact refusal_of_stepEntity h
  · split at h
    · simp at h
    · simp at h
    · obtain rfl := Except.error.inj h
      exact .unexpected _
  · split at h
    · next htoken =>
      split at h
      · simp at h
      · obtain rfl := Except.error.inj h
        exact .origin htoken
    · obtain rfl := Except.error.inj h
      exact .unexpected _
  · next hphase =>
    split at h
    · simp at h
    · obtain rfl := Except.error.inj h
      exact .comparison hphase
    · obtain rfl := Except.error.inj h
      exact .comparison hphase
    · obtain rfl := Except.error.inj h
      exact .comparison hphase
    · obtain rfl := Except.error.inj h
      exact .unexpected _
  · next hphase =>
    split at h
    · obtain rfl := Except.error.inj h
      exact .test hphase
    · exact refusal_of_stepAfter h
  · exact refusal_of_stepAfter h

/-- A token that breaks more than a limit goes on no beginning of a filter. -/
theorem not_begins_of_step {m : Limits} {ls : List Lexeme} (hrun : Runs m .initial ls s)
    (h : step s l = .error e) (nesting : e ≠ .nestedTooDeep l.position)
    (conditions : e ≠ .tooManyConditions l.position) :
    ¬Begins ((ls ++ [l]).map Lexeme.token) := by
  intro hbegins
  obtain ⟨n, s', hstep⟩ := step_of_begins hrun hbegins
  rcases step_of_wider hstep with hok | hdeep | hmany
  · rw [h] at hok
    simp at hok
  · rw [h] at hdeep
    exact nesting (Except.error.inj hdeep)
  · rw [h] at hmany
    exact conditions (Except.error.inj hmany)

end

/-! ## Positions that a state holds -/

section

variable {m : Limits} {s : State} {ls : List Lexeme}

/-- A phase behind an operator has been entered with that operator. -/
theorem last_of_value {e : Entity} {op : Comparison} {position : Nat} (h : Runs m .initial ls s)
    (phase : s.phase = .value e op position) :
    ∃ ks, ls = ks ++ [⟨.operator (.comparison op), position⟩] := by
  obtain ⟨ks, l, t, rfl, -, hstep⟩ := h.exists_last (by rintro rfl; simp [State.initial] at phase)
  obtain ⟨t', place⟩ := l
  cases hstep with
  | comparison _ token =>
    simp only [Phase.value.injEq] at phase
    obtain ⟨-, rfl, rfl⟩ := phase
    exact ⟨ks, by rw [← token]⟩
  | openBracket hoperand =>
    rw [hoperand] at phase
    simp at phase
  | _ => simp at phase

theorem last_of_noValue {e : Entity} {op : Test} {position : Nat} (h : Runs m .initial ls s)
    (phase : s.phase = .noValue e op position) :
    ∃ ks, ls = ks ++ [⟨.operator (.test op), position⟩] := by
  obtain ⟨ks, l, t, rfl, -, hstep⟩ := h.exists_last (by rintro rfl; simp [State.initial] at phase)
  obtain ⟨t', place⟩ := l
  cases hstep with
  | test _ token =>
    simp only [Phase.noValue.injEq] at phase
    obtain ⟨-, rfl, rfl⟩ := phase
    exact ⟨ks, by rw [← token]⟩
  | openBracket hoperand =>
    rw [hoperand] at phase
    simp at phase
  | _ => simp at phase

/-- The brackets that are open behind the tokens, the innermost first, are those of the levels `outer`. -/
inductive Opened : List Lexeme → List (Nat × Level) → Prop where
  | none {ls : List Lexeme} : Matched (ls.map Lexeme.token) → Opened ls []
  | cons {before inside : List Lexeme} {position : Nat} {l : Level} {outer : List (Nat × Level)} :
      Opened before outer → Matched (inside.map Lexeme.token) →
        Opened (before ++ ⟨.openBracket, position⟩ :: inside) ((position, l) :: outer)

theorem Opened.append {ks : List Lexeme} {outer : List (Nat × Level)} (h : Opened ls outer)
    (hk : Matched (ks.map Lexeme.token)) : Opened (ls ++ ks) outer := by
  cases h with
  | none hls => exact .none (by simpa using hls.append hk)
  | cons hbefore hinside =>
    rw [List.append_assoc, List.cons_append]
    exact .cons hbefore (by simpa using hinside.append hk)

theorem Opened.step {s' : State} {l : Lexeme} (h : Opened ls s.outer) (hs : Step m s l s') :
    Opened (ls ++ [l]) s'.outer := by
  have hother : l.token ≠ .openBracket → l.token ≠ .closeBracket → Opened (ls ++ [l]) s.outer :=
    fun hopen hclose => h.append (matched_other hopen hclose)
  obtain ⟨t, position⟩ := l
  cases hs with
  | openBracket phase token =>
    obtain rfl : t = .openBracket := token
    exact .cons h matched_nil
  | closeBracket behind token bracket =>
    obtain rfl : t = .closeBracket := token
    rw [bracket] at h
    cases h with
    | cons hbefore hinside =>
      -- what the bracket closes is one matched row behind the next bracket that is open
      rw [List.append_assoc, List.cons_append]
      exact hbefore.append (by simpa using hinside.group)
  | key phase token =>
    rcases token with token | token <;> exact hother (by rw [token]; simp) (by rw [token]; simp)
  | _ => exact hother (by simp_all) (by simp_all)

theorem opened_of_runs (h : Runs m .initial ls s) : Opened ls s.outer := by
  have step : ∀ {t u : State} {ks js : List Lexeme}, Runs m t js u → Opened ks t.outer →
      Opened (ks ++ js) u.outer := by
    intro t u ks js hrun
    induction hrun generalizing ks with
    | nil => simp
    | cons hs _ ih =>
      intro hopened
      simpa using ih (hopened.step hs)
  exact @step .initial s [] ls h (.none matched_nil)

theorem innermost_of_runs {position : Nat} {k : Level} {outer : List (Nat × Level)}
    (h : Runs m .initial ls s) (bracket : s.outer = (position, k) :: outer) :
    InnermostOpen ls position := by
  have hopened := opened_of_runs h
  rw [bracket] at hopened
  cases hopened with
  | cons _ hinside => exact ⟨_, _, rfl, hinside⟩

end

/-! ## Errors -/

section

variable {ls : List Lexeme} {s : State} {e : ReadError}

/-- A run that fails stops at a token behind which it has not gone on. -/
theorem run_error (h : run s ls = .error e) :
    ∃ before l after t, ls = before ++ l :: after ∧ run s before = .ok t ∧ step t l = .error e := by
  induction ls generalizing s with
  | nil => simp at h
  | cons l ls ih =>
    rw [run_cons] at h
    cases hstep : step s l with
    | error e' =>
      rw [hstep] at h
      obtain rfl := Except.error.inj h
      exact ⟨[], l, ls, s, rfl, rfl, hstep⟩
    | ok t =>
      rw [hstep] at h
      obtain ⟨before, k, after, u, rfl, hrun, hk⟩ := ih h
      refine ⟨l :: before, k, after, u, rfl, ?_, hk⟩
      rw [run_cons, hstep]
      exact hrun

/-- What is said of a token that cannot follow those before it. -/
theorem marks_of_step {size : Nat} {before after : List Lexeme} {l : Lexeme}
    (hrun : Runs .standard .initial before s) (h : step s l = .error e) :
    Marks size (before ++ l :: after) e := by
  have hbegins := hrun.begins
  have hbreak := not_begins_of_step hrun h
  cases refusal_of_step h with
  | nesting => exact ⟨before, l, after, rfl, rfl, hbegins⟩
  | conditions => exact ⟨before, l, after, rfl, rfl, hbegins⟩
  | unexpected =>
    exact ⟨before, l, after, rfl, rfl, rfl, hbegins, hbreak (by simp) (by simp)⟩
  | operator token =>
    exact ⟨before, l, after, rfl, rfl, token, hbegins, hbreak (by simp) (by simp)⟩
  | origin token =>
    exact ⟨before, l, after, rfl, rfl, token, hbegins, hbreak (by simp) (by simp)⟩
  | comparison phase =>
    obtain ⟨ks, rfl⟩ := last_of_value hrun phase
    refine ⟨ks, l :: after, by simp, hbegins, ?_⟩
    rintro k rest hk
    obtain ⟨rfl, rfl⟩ := List.cons.inj hk
    simpa using hbreak (by simp) (by simp)
  | test phase =>
    obtain ⟨ks, rfl⟩ := last_of_noValue hrun phase
    refine ⟨ks, l :: after, by simp, hbegins, ?_⟩
    rintro k rest hk
    obtain ⟨rfl, rfl⟩ := List.cons.inj hk
    simpa using hbreak (by simp) (by simp)

/-- What is said of tokens behind which something is missing. -/
theorem marks_of_finish {size : Nat} (hrun : Runs .standard .initial ls s)
    (h : finish size s = .error e) : Marks size ls e := by
  have hbegins := hrun.begins
  have hnone : s.behind? = none → Unfinished ls := by
    intro hbehind
    refine ⟨hbegins, ?_⟩
    rintro ⟨f, hf⟩
    obtain ⟨⟨o, ho⟩, -⟩ := behind_of_isFilter hrun hf
    rw [hbehind] at ho
    simp at ho
  have hafter : ∀ o, finishAfter s o = .error e → Marks size ls e := by
    intro o ho
    unfold finishAfter at ho
    split at ho
    · simp at ho
    · next position k outer houter =>
      obtain rfl := Except.error.inj ho
      refine ⟨innermost_of_runs hrun houter, hbegins, ?_⟩
      rintro ⟨f, hf⟩
      obtain ⟨-, hclosed⟩ := behind_of_isFilter hrun hf
      rw [houter] at hclosed
      simp at hclosed
  unfold finish at h
  split at h
  case h_5 hphase =>
    obtain rfl := Except.error.inj h
    obtain ⟨ks, rfl⟩ := last_of_value hrun hphase
    refine ⟨ks, [], rfl, hbegins, ?_⟩
    intro l rest hnil
    simp at hnil
  case h_6 => exact hafter _ h
  case h_7 => exact hafter _ h
  all_goals
    next hphase =>
    obtain rfl := Except.error.inj h
    exact ⟨rfl, hnone (by simp [State.behind?, hphase])⟩

end

end Parser

namespace Filter

open Grammar TagQuery.Parser

/-- **Errors stand at the first token that breaks the grammar.**  Where a text has tokens but is no
filter, the error says at which of them the tokens stop being the beginning of a filter, or that they
are one that is not finished; an error about a limit stands behind the beginning of a filter. -/
theorem errors_mark_first_break {text : String} {ls : List Lexeme} {e : ReadError}
    (read : Lexeme.read text = .ok ls) (some : ls ≠ []) (h : parse text = .error e) :
    Marks text.utf8ByteSize ls e := by
  rw [parse, read] at h
  change ofLexemes text.utf8ByteSize ls = .error e at h
  rw [ofLexemes, if_neg (by simpa using some)] at h
  cases hrun : run .initial ls with
  | ok s =>
    rw [hrun] at h
    exact marks_of_finish (run_ok_iff.1 hrun) h
  | error e' =>
    rw [hrun] at h
    obtain rfl := Except.error.inj h
    obtain ⟨before, l, after, s, rfl, hbefore, hstep⟩ := run_error hrun
    exact marks_of_step (run_ok_iff.1 hbefore) hstep

/-- A bracket that is not closed, behind one that is. -/
theorem errors_mark_first_break_unclosed :
    ∃ ls, Lexeme.read "(a IS_EMPTY) AND (b NOT_EMPTY" = .ok ls ∧ ls ≠ []
      ∧ parse "(a IS_EMPTY) AND (b NOT_EMPTY" = .error (.unclosedBracket 17)
      ∧ InnermostOpen ls 17 ∧ Unfinished ls := by
  have hread : (Lexeme.read "(a IS_EMPTY) AND (b NOT_EMPTY").toOption.isSome = true := by
    decide +kernel
  have hparse : parse "(a IS_EMPTY) AND (b NOT_EMPTY" = .error (.unclosedBracket 17) := by
    decide +kernel
  cases h : Lexeme.read "(a IS_EMPTY) AND (b NOT_EMPTY" with
  | error e =>
    rw [h] at hread
    simp [Except.toOption] at hread
  | ok ls =>
    have hsome : ls ≠ [] := by
      rintro rfl
      have hempty : parse "(a IS_EMPTY) AND (b NOT_EMPTY" = .error .emptyFilter := by
        rw [parse, h]
        rfl
      rw [hempty] at hparse
      simp at hparse
    exact ⟨ls, rfl, hsome, hparse, errors_mark_first_break h hsome hparse⟩

end Filter

end TagQuery
