import TagQuery.Filter.Parser
import TagQuery.Proofs.Except

/-!
# The steps of the parser as a relation

`Step m s l s'` says that the token `l` leads from the state `s` to `s'` where brackets may be nested
`m.depth` deep and there may be `m.conditions` conditions, with one rule for each way to go on.  With the
limits of the parser these are just the steps that it takes, and what it takes them to:

    step s l = .ok s' ↔ Step .standard s l s'                 (step_ok_iff)
    run s ls = .ok s' ↔ Runs .standard s ls s'                (run_ok_iff)

The limits decide whether a step can be taken, but not where it leads (`Runs.unique`).
-/

namespace TagQuery.Parser

/-- How deep brackets may be nested, and how many conditions there may be. -/
structure Limits where
  depth : Nat
  conditions : Nat

/-- The limits of the parser. -/
def Limits.standard : Limits := ⟨maxDepth, maxConditions⟩

namespace State

/-- The operand that has just been finished, if one has. -/
def behind? (s : State) : Option Operand :=
  match s.phase with
  | .noValue e op _ => some (.condition (.test e op))
  | .after o => some o
  | _ => none

end State

/-! ## Levels -/

namespace Level

/-- The chain in progress, ended with the operands of `c`. -/
def withChain (l : Level) (c : Chain) : Chain :=
  l.operands.foldl (fun rest o => .and o rest) c

/-- The filter in progress, ended with the alternatives of `f`. -/
def withFilter (l : Level) (f : Filter) : Filter :=
  l.chains.foldl (fun rest c => .or c rest) f

theorem filter_eq (l : Level) (o : Operand) : l.filter o = l.withFilter (.single (l.chain o)) := rfl

end Level

/-! ## Steps -/

/-- The ways to go on. -/
inductive Step (m : Limits) (s : State) (l : Lexeme) : State → Prop where
  | openBracket (phase : s.phase = .operand) (token : l.token = .openBracket)
      (fits : s.outer.length < m.depth) :
      Step m s l { s with level := .empty, outer := (l.position, s.level) :: s.outer }
  | name {name : String} (phase : s.phase = .operand) (token : l.token = .identifier name)
      (fits : s.conditions < m.conditions) :
      Step m s l { s with conditions := s.conditions + 1, phase := .entity ⟨name, none, none⟩ }
  | colon {e : Entity} (phase : s.phase = .entity e) (token : l.token = .colon)
      (key : e.key = none) (origin : e.origin = none) :
      Step m s l { s with phase := .key e }
  | key {e : Entity} {key : String} (phase : s.phase = .key e)
      (token : l.token = .identifier key ∨ l.token = .literal (.string key)) :
      Step m s l { s with phase := .entity { e with key := some key } }
  | at {e : Entity} (phase : s.phase = .entity e) (token : l.token = .at)
      (origin : e.origin = none) :
      Step m s l { s with phase := .origin e }
  | origin {e : Entity} {o : Origin} (phase : s.phase = .origin e)
      (token : l.token = .identifier o.key) :
      Step m s l { s with phase := .entity { e with origin := some o } }
  | comparison {e : Entity} {op : Comparison} (phase : s.phase = .entity e)
      (token : l.token = .operator (.comparison op)) :
      Step m s l { s with phase := .value e op l.position }
  | test {e : Entity} {op : Test} (phase : s.phase = .entity e)
      (token : l.token = .operator (.test op)) :
      Step m s l { s with phase := .noValue e op l.position }
  | value {e : Entity} {op : Comparison} {position : Nat} {v : Value}
      (phase : s.phase = .value e op position) (token : l.token = .literal v) :
      Step m s l { s with phase := .after (.condition (.compare e op v)) }
  | and {o : Operand} (behind : s.behind? = some o) (token : l.token = .and) :
      Step m s l { s with level := ⟨s.level.chains, o :: s.level.operands⟩, phase := .operand }
  | or {o : Operand} (behind : s.behind? = some o) (token : l.token = .or) :
      Step m s l { s with level := ⟨s.level.chain o :: s.level.chains, []⟩, phase := .operand }
  | closeBracket {o : Operand} {position : Nat} {level : Level} {outer : List (Nat × Level)}
      (behind : s.behind? = some o) (token : l.token = .closeBracket)
      (bracket : s.outer = (position, level) :: outer) :
      Step m s l { s with level, outer, phase := .after (.group (s.level.filter o)) }

theorem key_inj {o p : Origin} : o.key = p.key ↔ o = p := by
  cases o <;> cases p <;> decide

theorem ofKey?_eq_some_iff {word : String} {o : Origin} :
    Origin.ofKey? word = some o ↔ word = o.key := by
  constructor
  · intro h
    have hkey : o.key = word := by simpa using List.find?_some h
    exact hkey.symm
  · rintro rfl
    exact Origin.ofKey?_key o

section

variable {s s' : State} {l : Lexeme} {o : Operand}

/-- Behind an operand the parser looks for a connective, a closing bracket or the end. -/
theorem step_behind (behind : s.behind? = some o) (h : l.token.isLiteral = false) :
    step s l = stepAfter s o l := by
  unfold State.behind? at behind
  split at behind
  · next hphase =>
    obtain rfl := Option.some.inj behind
    simp only [step, hphase]
    split
    · next hl => simp [Token.isLiteral, hl] at h
    · rfl
  · next hphase =>
    obtain rfl := Option.some.inj behind
    simp only [step, hphase]
  · simp at behind

/-- What the parser takes behind an operand. -/
theorem of_stepAfter (behind : s.behind? = some o) (h : stepAfter s o l = .ok s') :
    Step .standard s l s' := by
  unfold stepAfter at h
  split at h
  · next htoken =>
    obtain rfl := Except.ok.inj h
    exact .and behind htoken
  · next htoken =>
    obtain rfl := Except.ok.inj h
    exact .or behind htoken
  · next htoken houter =>
    obtain rfl := Except.ok.inj h
    exact .closeBracket behind htoken houter
  · simp at h
  · simp at h

/-- What the parser takes where an operand starts. -/
theorem of_stepOperand (phase : s.phase = .operand) (h : stepOperand s l = .ok s') :
    Step .standard s l s' := by
  unfold stepOperand at h
  split at h
  · next htoken =>
    split at h
    · simp at h
    · next hfits =>
      obtain rfl := Except.ok.inj h
      exact .openBracket phase htoken (Nat.not_le.1 hfits)
  · split at h
    · simp at h
    · next hfits =>
      split at h
      · next htoken =>
        obtain rfl := Except.ok.inj h
        exact .name phase htoken (Nat.not_le.1 hfits)
      · simp at h

/-- What the parser takes behind an entity. -/
theorem of_stepEntity {e : Entity} (phase : s.phase = .entity e) (h : stepEntity s e l = .ok s') :
    Step .standard s l s' := by
  unfold stepEntity at h
  simp only at h
  split at h
  · next htoken =>
    split at h
    · next hfree =>
      obtain rfl := Except.ok.inj h
      simp only [Bool.and_eq_true, Option.isNone_iff_eq_none] at hfree
      exact .colon phase htoken hfree.1 hfree.2
    · simp at h
  · next htoken =>
    split at h
    · next hfree =>
      obtain rfl := Except.ok.inj h
      exact .at phase htoken (Option.isNone_iff_eq_none.1 hfree)
    · simp at h
  · next htoken =>
    obtain rfl := Except.ok.inj h
    exact .comparison phase htoken
  · next htoken =>
    obtain rfl := Except.ok.inj h
    exact .test phase htoken
  · simp at h
  · simp at h

/-- What the parser takes for a key. -/
theorem of_step_key {e : Entity} (phase : s.phase = .key e) (h : step s l = .ok s') :
    Step .standard s l s' := by
  simp only [step, phase] at h
  split at h
  · next htoken =>
    obtain rfl := Except.ok.inj h
    exact .key phase (.inl htoken)
  · next htoken =>
    obtain rfl := Except.ok.inj h
    exact .key phase (.inr htoken)
  · simp at h

/-- What the parser takes for an origin. -/
theorem of_step_origin {e : Entity} (phase : s.phase = .origin e) (h : step s l = .ok s') :
    Step .standard s l s' := by
  simp only [step, phase] at h
  split at h
  · next htoken =>
    split at h
    · next horigin =>
      obtain rfl := Except.ok.inj h
      rw [ofKey?_eq_some_iff] at horigin
      exact .origin phase (horigin ▸ htoken)
    · simp at h
  · simp at h

/-- What the parser takes for a value. -/
theorem of_step_value {e : Entity} {op : Comparison} {position : Nat}
    (phase : s.phase = .value e op position) (h : step s l = .ok s') : Step .standard s l s' := by
  simp only [step, phase] at h
  split at h
  · next htoken =>
    obtain rfl := Except.ok.inj h
    exact .value phase htoken
  all_goals simp at h

theorem of_step (h : step s l = .ok s') : Step .standard s l s' := by
  cases phase : s.phase with
  | operand => exact of_stepOperand phase (by simpa only [step, phase] using h)
  | entity e => exact of_stepEntity phase (by simpa only [step, phase] using h)
  | key e => exact of_step_key phase h
  | origin e => exact of_step_origin phase h
  | value e op position => exact of_step_value phase h
  | noValue e op position =>
    simp only [step, phase] at h
    split at h
    · simp at h
    · exact of_stepAfter (by simp [State.behind?, phase]) h
  | after o =>
    have hafter : stepAfter s o l = .ok s' := by simpa only [step, phase] using h
    exact of_stepAfter (by simp [State.behind?, phase]) hafter

theorem step_of (h : Step .standard s l s') : step s l = .ok s' := by
  cases h with
  | openBracket phase token fits =>
    have hfits : ¬maxDepth ≤ s.outer.length := Nat.not_le.2 fits
    simp [step, stepOperand, phase, token, hfits]
  | name phase token fits =>
    have hfits : ¬maxConditions ≤ s.conditions := Nat.not_le.2 fits
    simp [step, stepOperand, phase, token, hfits]
  | colon phase token key origin => simp [step, stepEntity, phase, token, key, origin]
  | key phase token => rcases token with token | token <;> simp [step, phase, token]
  | «at» phase token origin => simp [step, stepEntity, phase, token, origin]
  | origin phase token => simp [step, phase, token, Origin.ofKey?_key]
  | comparison phase token => simp [step, stepEntity, phase, token]
  | test phase token => simp [step, stepEntity, phase, token]
  | value phase token => simp [step, phase, token]
  | and behind token =>
    rw [step_behind behind (by simp [Token.isLiteral, token])]
    simp [stepAfter, token]
  | or behind token =>
    rw [step_behind behind (by simp [Token.isLiteral, token])]
    simp [stepAfter, token]
  | closeBracket behind token bracket =>
    rw [step_behind behind (by simp [Token.isLiteral, token])]
    simp [stepAfter, token, bracket]

theorem step_ok_iff : step s l = .ok s' ↔ Step .standard s l s' :=
  ⟨of_step, step_of⟩

end

/-- Where a step leads does not depend on the limits. -/
theorem Step.unique {m n : Limits} {s t u : State} {l : Lexeme} (h : Step m s l t)
    (k : Step n s l u) : t = u := by
  -- phase and token tell the rules apart
  cases h <;> cases k <;> simp_all [State.behind?]
  case key.key second _ first =>
    rcases first with h | h <;> simpa [h, eq_comm] using second
  case origin.origin second _ _ => exact (key_inj.1 second).symm

/-! ## Runs -/

/-- The steps that a list of tokens leads through. -/
inductive Runs (m : Limits) : State → List Lexeme → State → Prop where
  | nil {s : State} : Runs m s [] s
  | cons {s t u : State} {l : Lexeme} {ls : List Lexeme} :
      Step m s l t → Runs m t ls u → Runs m s (l :: ls) u

namespace Runs

variable {m n : Limits} {s t u : State} {ls ks : List Lexeme}

theorem append (first : Runs m s ls t) (second : Runs m t ks u) : Runs m s (ls ++ ks) u := by
  induction first with
  | nil => exact second
  | cons step _ ih => exact .cons step (ih second)

theorem unique (h : Runs m s ls t) (k : Runs n s ls u) : t = u := by
  induction h with
  | nil =>
    cases k
    rfl
  | cons step _ ih =>
    cases k with
    | cons step' k =>
      obtain rfl := step.unique step'
      exact ih k

end Runs

theorem run_ok_iff {s s' : State} {ls : List Lexeme} :
    run s ls = .ok s' ↔ Runs .standard s ls s' := by
  constructor
  · intro h
    induction ls generalizing s with
    | nil =>
      obtain rfl := Except.ok.inj h
      exact .nil
    | cons l ls ih =>
      rw [run_cons, Except.bind_ok_iff] at h
      obtain ⟨t, hstep, hrun⟩ := h
      exact .cons (step_ok_iff.1 hstep) (ih hrun)
  · intro h
    induction h with
    | nil => rfl
    | cons step _ ih =>
      rw [run_cons, step_of step]
      exact ih

/-! ## The end -/

theorem finish_ok_iff {size : Nat} {s : State} {f : Filter} :
    finish size s = .ok f ↔ ∃ o, s.behind? = some o ∧ s.outer = [] ∧ s.level.filter o = f := by
  have hafter : ∀ o, finishAfter s o = .ok f ↔ s.outer = [] ∧ s.level.filter o = f := by
    intro o
    unfold finishAfter
    split
    · next houter => simp [houter]
    · next houter => simp [houter]
  unfold finish State.behind?
  split <;> simp_all

end TagQuery.Parser
