import TagQuery.Proofs.Filter.ErrorPlaces
import TagQuery.Proofs.Filter.Nesting
import TagQuery.Proofs.Filter.RoundTrip

/-!
# Where a limit is broken

A filter that is too deep or too long breaks its limits at tokens that can be seen without the parser: an
opening bracket that as many others are open around as may be nested, and the name that as many conditions
stand before as a filter may have (`Offends`).  The parser's two counters say just that of the tokens before
(`Counts`), so that it stops at the first of those tokens and at no other:

    Counts s ts → Step m s l s' → Counts s' (ts ++ [l.token])                         (Counts.step)
    Counts s ts → … → Step m s l s' → (step s l = .error e ↔ Offends ts l e)          (step_error_iff)
    IsFilter (ls.map Lexeme.token) f → (parse text = .error e ↔ FirstOffence ls e)    (limit_errors_exact)
-/

namespace TagQuery

namespace Grammar

/-! ## Tokens that break a limit -/

/-- Behind these tokens an operand starts: there are none, or the last one is an opening bracket or a
connective. -/
def Fresh (ts : List Token) : Prop :=
  ∀ t ∈ ts.getLast?, t = .openBracket ∨ t = .and ∨ t = .or

/-- Behind the tokens `before`, the token `l` breaks a limit, which `e` reports. -/
inductive Offends (before : List Token) (l : Lexeme) : ReadError → Prop where
  /-- A bracket opens the level behind the deepest one. -/
  | depth : l.token = .openBracket →
      before.count .openBracket = before.count .closeBracket + maxDepth →
      Offends before l (.nestedTooDeep l.position)
  /-- A name starts the condition behind the last one. -/
  | conditions {name : String} : l.token = .identifier name → Fresh before →
      conditionCount before = maxConditions → Offends before l (.tooManyConditions l.position)

/-- Some token breaks a limit, which `e` reports. -/
def Offence (ls : List Lexeme) (e : ReadError) : Prop :=
  ∃ before l after, ls = before ++ l :: after ∧ Offends (before.map Lexeme.token) l e

/-- The first token that breaks a limit breaks the one that `e` reports. -/
def FirstOffence (ls : List Lexeme) (e : ReadError) : Prop :=
  ∃ before l after, ls = before ++ l :: after ∧ Offends (before.map Lexeme.token) l e
    ∧ ∀ e', ¬Offence before e'

section

variable {ls : List Lexeme} {e e' : ReadError}

theorem FirstOffence.offence (h : FirstOffence ls e) : Offence ls e := by
  obtain ⟨before, l, after, hls, hoffends, -⟩ := h
  exact ⟨before, l, after, hls, hoffends⟩

/-- A token breaks one limit at most. -/
theorem Offends.unique {before : List Token} {l : Lexeme} (h : Offends before l e)
    (h' : Offends before l e') : e = e' := by
  cases h with
  | depth token =>
    cases h' with
    | depth => rfl
    | conditions token' => simp [token] at token'
  | conditions token =>
    cases h' with
    | depth token' => simp [token] at token'
    | conditions => rfl

theorem FirstOffence.unique (h : FirstOffence ls e) (h' : FirstOffence ls e') : e = e' := by
  obtain ⟨before, l, after, rfl, hl, hnone⟩ := h
  obtain ⟨before', l', after', hls, hl', hnone'⟩ := h'
  -- the two places are the same, or one offence stands before the other
  rcases List.append_eq_append_iff.1 hls with ⟨as, rfl, has⟩ | ⟨as, rfl, has⟩
  · cases as with
    | nil =>
      obtain ⟨rfl, rfl⟩ := List.cons.inj has
      rw [List.append_nil] at hl'
      exact hl.unique hl'
    | cons k as =>
      obtain ⟨rfl, rfl⟩ := List.cons.inj has
      exact absurd ⟨before, l, as, rfl, hl⟩ (hnone' e)
  · cases as with
    | nil =>
      obtain ⟨rfl, rfl⟩ := List.cons.inj has
      rw [List.append_nil] at hl
      exact hl.unique hl'
    | cons k as =>
      obtain ⟨rfl, rfl⟩ := List.cons.inj has
      exact absurd ⟨before', l', as, rfl, hl'⟩ (hnone e')

end

end Grammar

namespace Parser

open Grammar

/-! ## What the counters count -/

/-- How many conditions have been started whose operator has not been read. -/
def Phase.unread : Phase → Nat
  | .entity _ | .key _ | .origin _ => 1
  | _ => 0

/-- The state counts the brackets that are open behind the tokens `ts`, and the conditions that have started
among them. -/
structure Counts (s : State) (ts : List Token) : Prop where
  brackets : ts.count .openBracket = ts.count .closeBracket + s.outer.length
  conditions : s.conditions = conditionCount ts + s.phase.unread
  operand : Fresh ts ↔ s.phase = .operand

theorem counts_initial : Counts .initial [] where
  brackets := rfl
  conditions := rfl
  operand := by simp [Fresh, State.initial]

theorem fresh_append {ts : List Token} {t : Token} :
    Fresh (ts ++ [t]) ↔ t = .openBracket ∨ t = .and ∨ t = .or := by
  simp [Fresh]

theorem unread_of_behind {s : State} {o : Operand} (behind : s.behind? = some o) :
    s.phase.unread = 0 := by
  unfold State.behind? at behind
  split at behind
  · next hphase => rw [hphase]; rfl
  · next hphase => rw [hphase]; rfl
  · simp at behind

section

variable {m : Limits} {s s' : State} {ts : List Token} {l : Lexeme}

/-- A token that is no bracket leaves the levels as they are. -/
theorem Counts.extend {t : Token} (h : Counts s ts) (hopen : t ≠ .openBracket)
    (hclose : t ≠ .closeBracket) (outer : s'.outer = s.outer)
    (conditions : s'.conditions = conditionCount (ts ++ [t]) + s'.phase.unread)
    (operand : t = .and ∨ t = .or ↔ s'.phase = .operand) : Counts s' (ts ++ [t]) where
  brackets := by simp [h.brackets, hopen, hclose, outer]
  conditions := conditions
  operand := by rw [fresh_append, ← operand, or_iff_right hopen]

theorem conditionCount_concat (ts : List Token) (t : Token) :
    conditionCount (ts ++ [t]) = conditionCount ts + if t.isOperator then 1 else 0 := by
  rw [conditionCount_append]
  congr 1
  exact List.countP_singleton

/-- The counters go on as the tokens do. -/
theorem Counts.step (h : Counts s ts) (hs : Step m s l s') : Counts s' (ts ++ [l.token]) := by
  have hcount := h.conditions
  cases hs with
  | openBracket phase token =>
    have hbrackets := h.brackets
    rw [token]
    refine ⟨?_, ?_, iff_of_true (fresh_append.2 (.inl rfl)) phase⟩
    · simp [hbrackets, Nat.add_assoc]
    · simpa [conditionCount_concat, Token.isOperator] using hcount
  | closeBracket behind token bracket =>
    have hbrackets := h.brackets
    rw [unread_of_behind behind] at hcount
    rw [bracket, List.length_cons] at hbrackets
    rw [token]
    refine ⟨?_, ?_, iff_of_false (by simp [fresh_append]) (by simp)⟩
    · simp [hbrackets]
      omega
    · simpa [conditionCount_concat, Token.isOperator, Phase.unread] using hcount
  | and behind token | or behind token =>
    rw [unread_of_behind behind] at hcount
    rw [token]
    refine h.extend (by simp) (by simp) rfl ?_ (by simp)
    simpa [conditionCount_concat, Token.isOperator, Phase.unread] using hcount
  | key phase token =>
    rw [phase] at hcount
    rcases token with token | token <;>
    · rw [token]
      refine h.extend (by simp) (by simp) rfl ?_ (by simp)
      simpa [conditionCount_concat, Token.isOperator, Phase.unread] using hcount
  | name phase token | colon phase token | «at» phase token | origin phase token
  | comparison phase token | test phase token | value phase token =>
    rw [phase] at hcount
    rw [token]
    refine h.extend (by simp) (by simp) rfl ?_ (by simp)
    simpa [conditionCount_concat, Token.isOperator, Phase.unread] using hcount

theorem Counts.run {ls : List Lexeme} (h : Counts s ts) (hr : Runs m s ls s') :
    Counts s' (ts ++ ls.map Lexeme.token) := by
  induction hr generalizing ts with
  | nil => simpa using h
  | cons hs _ ih => simpa using ih (h.step hs)

end

/-! ## Where the parser stops -/

section

variable {m : Limits} {s s' : State} {ts : List Token} {l : Lexeme} {e : ReadError}

theorem not_offends (h : Counts s ts) (phase : s.phase ≠ .operand) (token : l.token ≠ .openBracket) :
    ¬Offends ts l e := by
  intro hoffends
  cases hoffends with
  | depth token' => exact token token'
  | conditions _ fresh => exact phase (h.operand.1 fresh)

theorem phase_of_behind_ne {o : Operand} (behind : s.behind? = some o) : s.phase ≠ .operand := by
  intro phase
  simp [State.behind?, phase] at behind

/-- A bracket is refused just where it is one too deep. -/
theorem openBracket_error_iff (h : Counts s ts) (within : s.outer.length ≤ maxDepth)
    (phase : s.phase = .operand) (token : l.token = .openBracket) :
    step s l = .error e ↔ Offends ts l e := by
  have hbrackets := h.brackets
  constructor
  · intro hstep
    simp only [step, stepOperand, phase, token] at hstep
    split at hstep
    · obtain rfl := Except.error.inj hstep
      exact .depth token (by omega)
    · simp at hstep
  · intro hoffends
    cases hoffends with
    | depth _ hlevel =>
      have hdeep : maxDepth ≤ s.outer.length := by omega
      simp [step, stepOperand, phase, token, hdeep]
    | conditions token' => simp [token] at token'

/-- A name that begins an operand is refused just where it is one condition too many. -/
theorem identifier_error_iff {name : String} (h : Counts s ts) (within : s.conditions ≤ maxConditions)
    (phase : s.phase = .operand) (token : l.token = .identifier name) :
    step s l = .error e ↔ Offends ts l e := by
  have hcount : s.conditions = conditionCount ts := by simpa [phase, Phase.unread] using h.conditions
  constructor
  · intro hstep
    simp only [step, stepOperand, phase, token] at hstep
    split at hstep
    · obtain rfl := Except.error.inj hstep
      exact .conditions token (h.operand.2 phase) (by omega)
    · simp at hstep
  · intro hoffends
    cases hoffends with
    | depth token' => simp [token] at token'
    | conditions _ _ hlast =>
      have hmany : maxConditions ≤ s.conditions := by omega
      simp [step, stepOperand, phase, token, hmany]

/-- A token that some limits let through breaks a limit just where the parser stops at it. -/
theorem step_error_iff (h : Counts s ts) (within : Within .standard s) (hs : Step m s l s') :
    step s l = .error e ↔ Offends ts l e := by
  -- all other tokens than a bracket or a name at the start of an operand are let through by any limits
  have other : step s l = .ok s' → s.phase ≠ .operand → l.token ≠ .openBracket →
      (step s l = .error e ↔ Offends ts l e) := by
    intro hok hphase htoken
    exact iff_of_false (by simp [hok]) (not_offends h hphase htoken)
  cases hs with
  | openBracket phase token => exact openBracket_error_iff h within.length phase token
  | name phase token => exact identifier_error_iff h within.conditions phase token
  | colon phase token key origin =>
    exact other (step_of (.colon phase token key origin)) (by simp [phase]) (by simp [token])
  | key phase token =>
    refine other (step_of (.key phase token)) (by simp [phase]) ?_
    rcases token with token | token <;> simp [token]
  | «at» phase token origin =>
    exact other (step_of (.at phase token origin)) (by simp [phase]) (by simp [token])
  | origin phase token =>
    exact other (step_of (.origin phase token)) (by simp [phase]) (by simp [token])
  | comparison phase token =>
    exact other (step_of (.comparison phase token)) (by simp [phase]) (by simp [token])
  | test phase token =>
    exact other (step_of (.test phase token)) (by simp [phase]) (by simp [token])
  | value phase token =>
    exact other (step_of (.value phase token)) (by simp [phase]) (by simp [token])
  | and behind token =>
    exact other (step_of (.and behind token)) (phase_of_behind_ne behind) (by simp [token])
  | or behind token =>
    exact other (step_of (.or behind token)) (phase_of_behind_ne behind) (by simp [token])
  | closeBracket behind token bracket =>
    exact other (step_of (.closeBracket behind token bracket)) (phase_of_behind_ne behind)
      (by simp [token])

end

section

variable {m : Limits} {s u : State} {ls : List Lexeme} {e : ReadError}

/-- What the parser has taken breaks no limit. -/
theorem not_offence_of_runs (h : Runs .standard .initial ls s) : ¬Offence ls e := by
  rintro ⟨before, l, after, rfl, hoffends⟩
  obtain ⟨t, hbefore, hafter⟩ := Runs.append_iff.1 h
  cases hafter with
  | cons hstep _ =>
    have hcounts := counts_initial.run hbefore
    have hwithin := (within_initial .standard).run hbefore
    have herror := (step_error_iff hcounts hwithin hstep).2 hoffends
    rw [step_of hstep] at herror
    simp at herror

/-- Where wider limits let all tokens through, the parser stops at the first that breaks a limit. -/
theorem firstOffence_of_run (h : Runs m .initial ls u) (hrun : run .initial ls = .error e) :
    FirstOffence ls e := by
  obtain ⟨before, l, after, t, rfl, hbefore, hstep⟩ := run_error hrun
  rw [run_ok_iff] at hbefore
  obtain ⟨t', hwide, hrest⟩ := Runs.append_iff.1 h
  obtain rfl := hbefore.unique hwide
  cases hrest with
  | cons hl _ =>
    have hcounts := counts_initial.run hbefore
    have hwithin := (within_initial .standard).run hbefore
    exact ⟨before, l, after, rfl, (step_error_iff hcounts hwithin hl).1 hstep,
      fun _ => not_offence_of_runs hbefore⟩

end

end Parser

namespace Filter

open Grammar TagQuery.Parser

section

variable {text : String} {ls : List Lexeme} {f g : Filter} {e : ReadError}

/-- Tokens that make a filter are that filter, or one of them breaks a limit. -/
theorem ofLexemes_of_isFilter {size : Nat} (h : IsFilter (ls.map Lexeme.token) f) :
    ofLexemes size ls = .ok f ∧ (∀ e, ¬Offence ls e)
      ∨ ∃ e, ofLexemes size ls = .error e ∧ FirstOffence ls e := by
  obtain ⟨u, o, hwide, hbehind, houter, hfilter⟩ :=
    h.runs (m := ⟨f.depth, f.conditions.length⟩) le_rfl le_rfl
  have hne : ls ≠ [] := fun hnil => h.ne_nil (by rw [hnil]; rfl)
  have hlexemes : ofLexemes size ls = run .initial ls >>= finish size := by
    rw [ofLexemes, if_neg (by simpa using hne)]
  cases hrun : run .initial ls with
  | ok s =>
    rw [run_ok_iff] at hrun
    obtain rfl := hwide.unique hrun
    refine .inl ⟨?_, fun e => not_offence_of_runs hrun⟩
    rw [hlexemes, run_ok_iff.2 hrun]
    exact finish_ok_iff.2 ⟨o, hbehind, houter, hfilter⟩
  | error e =>
    refine .inr ⟨e, ?_, firstOffence_of_run hwide hrun⟩
    rw [hlexemes, hrun]
    rfl

/-- **Errors about limits are exact.**  A text whose tokens make a filter is read as that filter unless
one of them opens a bracket too many around itself or starts a condition too many, and then the error is
about the first of those tokens and stands at it.  Some token does so just where the filter is too deep
or too long. -/
theorem limit_errors_exact (read : Lexeme.read text = .ok ls) (h : IsFilter (ls.map Lexeme.token) f) :
    (parse text = .ok f ↔ ∀ e, ¬Offence ls e)
      ∧ (∀ e, parse text = .error e ↔ FirstOffence ls e)
      ∧ ((∃ e, Offence ls e) ↔ maxDepth < f.depth ∨ maxConditions < f.conditions.length) := by
  have hparse : parse text = ofLexemes text.utf8ByteSize ls := by
    rw [parse, read]
    rfl
  have hlimits : parse text = .ok f ↔ f.depth ≤ maxDepth ∧ f.conditions.length ≤ maxConditions := by
    rw [hparse, ofLexemes_ok_iff, and_iff_right h]
  rw [hparse] at hlimits ⊢
  rcases ofLexemes_of_isFilter h with ⟨hok, hnone⟩ | ⟨e, herror, hfirst⟩
  · have hfits := hlimits.1 hok
    refine ⟨iff_of_true hok hnone, fun e => iff_of_false ?_ fun hfirst => hnone e hfirst.offence,
      iff_of_false (not_exists.2 hnone) (by omega)⟩
    simp [hok]
  · have hfails : ofLexemes text.utf8ByteSize ls ≠ .ok f := by simp [herror]
    have hbroken := mt hlimits.2 hfails
    refine ⟨iff_of_false hfails fun hnone => hnone e hfirst.offence, fun e' => ?_,
      iff_of_true ⟨e, hfirst.offence⟩ (by omega)⟩
    rw [herror]
    constructor
    · intro he
      rwa [← Except.error.inj he]
    · intro hfirst'
      rw [hfirst.unique hfirst']

end

/-- A condition in brackets, and behind it one in a pair of brackets more than may be nested. -/
def tooDeep : Filter :=
  let c : Filter := .ofOperand (.condition (.test ⟨"a", none, none⟩ .isEmpty))
  let wrapped := Nat.repeat (fun f : Filter => .ofOperand (.group f)) maxDepth c
  .single (.and (.group c) (.single (.group wrapped)))

/-- `(a IS_EMPTY) AND (((…` fails at the last of 65 brackets, the one that is closed before them not
counted. -/
theorem limit_errors_exact_deep :
    ∃ ls, Lexeme.read tooDeep.text = .ok ls ∧ IsFilter (ls.map Lexeme.token) tooDeep
      ∧ parse tooDeep.text = .error (.nestedTooDeep 81) ∧ FirstOffence ls (.nestedTooDeep 81) := by
  have hplain : ∀ c ∈ tooDeep.conditions, IsPlain c.entity.name := by
    have hall : tooDeep.conditions.all (fun c => isPlainName c.entity.name) = true := by decide +kernel
    exact fun c hc => isPlainName_iff.1 (List.all_eq_true.1 hall c hc)
  obtain ⟨ls, hread, htokens⟩ := read_text hplain
  have hfilter : IsFilter (ls.map Lexeme.token) tooDeep := htokens ▸ isFilter_tokens tooDeep
  have hparse : parse tooDeep.text = .error (.nestedTooDeep 81) := by decide +kernel
  exact ⟨ls, hread, hfilter, hparse, ((limit_errors_exact hread hfilter).2.1 _).1 hparse⟩

end Filter

end TagQuery
