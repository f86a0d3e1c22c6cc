import TagQuery.Proofs.Filter.Completeness
import TagQuery.Proofs.Filter.Soundness

/-!
# Beginnings of filters

Tokens begin a filter if some others behind them make it whole.  In whatever state the parser is, a
condition can be ended and each open bracket be closed, so that the tokens that it takes, under any
limits, are just the beginnings of filters:

    Begins (ls.map Lexeme.token) ↔ ∃ m s, Runs m .initial ls s                        (begins_iff)
    Runs m .initial ls s → Begins ((ls ++ [l]).map Lexeme.token) → ∃ n s', Step n s l s'  (step_of_begins)
-/

namespace TagQuery

namespace Grammar

/-- Some tokens behind these make a filter of them. -/
def Begins (ts : List Token) : Prop :=
  ∃ us f, IsFilter (ts ++ us) f

end Grammar

namespace Parser

open Grammar

/-! ## Runs over parts of a list -/

namespace Runs

variable {m n : Limits} {s t u : State} {ls ks : List Lexeme} {l : Lexeme}

theorem append_iff : Runs m s (ls ++ ks) u ↔ ∃ t, Runs m s ls t ∧ Runs m t ks u := by
  constructor
  · intro h
    induction ls generalizing s with
    | nil => exact ⟨s, .nil, h⟩
    | cons l ls ih =>
      cases h with
      | cons step rest =>
        obtain ⟨t, hls, hks⟩ := ih rest
        exact ⟨t, .cons step hls, hks⟩
  · rintro ⟨t, hls, hks⟩
    exact hls.append hks

theorem singleton_iff : Runs m s [l] u ↔ Step m s l u := by
  constructor
  · intro h
    cases h with
    | cons step rest =>
      cases rest
      exact step
  · intro h
    exact .cons h .nil

/-- The last step of a run that has gone on. -/
theorem exists_last (h : Runs m s ls u) (moved : u ≠ s) :
    ∃ ks l t, ls = ks ++ [l] ∧ Runs m s ks t ∧ Step m t l u := by
  rcases List.eq_nil_or_concat ls with rfl | ⟨ks, l, rfl⟩
  · cases h
    exact absurd rfl moved
  · rw [List.concat_eq_append, append_iff] at h
    obtain ⟨t, hks, hl⟩ := h
    exact ⟨ks, l, t, by simp, hks, singleton_iff.1 hl⟩

end Runs

/-! ## What makes a filter whole -/

/-- Tokens that end the operand in progress. -/
def Phase.ending : Phase → List Token
  | .operand | .key _ => [.identifier "a", .operator (.test .isEmpty)]
  | .entity _ => [.operator (.test .isEmpty)]
  | .origin _ => [.identifier Origin.source.key, .operator (.test .isEmpty)]
  | .value .. => [.literal (.boolean true)]
  | .noValue .. | .after _ => []

theorem isOperand_ending {ts : List Token} {p : Phase} (h : IsPhase ts p) :
    ∃ o, IsOperand (ts ++ p.ending) o := by
  cases h with
  | operand => exact ⟨_, .condition (.test .isEmpty (.mk "a" .none .none))⟩
  | entity he => exact ⟨_, .condition (.test .isEmpty he)⟩
  | key he hkey horigin =>
    have hentity := isEntity_withKey he hkey horigin (.name "a")
    exact ⟨_, .condition (by simpa [Phase.ending] using IsCondition.test .isEmpty hentity)⟩
  | origin he horigin =>
    have hentity := isEntity_withOrigin he horigin (.some .source)
    exact ⟨_, .condition (by simpa [Phase.ending] using IsCondition.test .isEmpty hentity)⟩
  | value he =>
    exact ⟨_, .condition (by simpa [Phase.ending] using IsCondition.compare _ (.boolean true) he)⟩
  | noValue he => exact ⟨_, .condition (by simpa [Phase.ending] using IsCondition.test _ he)⟩
  | after ho => exact ⟨_, by simpa [Phase.ending] using ho⟩

/-- Behind an operand, a bracket for each one that is open makes a filter of what has been read. -/
theorem isFilter_closed {us : List Token} {outer : List (Nat × Level)} (h : IsOuter us outer) :
    ∀ {vs ws : List Token} {l : Level} {o : Operand}, IsLevel vs l → IsOperand ws o →
      ∃ f, IsFilter (us ++ (vs ++ ws) ++ List.replicate outer.length .closeBracket) f := by
  induction h with
  | nil =>
    intro vs ws l o hlevel ho
    exact ⟨_, by simpa using isFilter_of_isLevel hlevel ho⟩
  | @cons ts us position k outer _ hlevel' ih =>
    intro vs ws l o hlevel ho
    obtain ⟨f, hf⟩ := ih hlevel' (.group (isFilter_of_isLevel hlevel ho))
    refine ⟨f, ?_⟩
    simpa [List.replicate_succ] using hf

theorem Reads.begins {s : State} {ts : List Token} (h : Reads s ts) : Begins ts := by
  obtain ⟨us, vs, ws, rfl, houter, hlevel, hphase⟩ := h
  obtain ⟨o, ho⟩ := isOperand_ending hphase
  obtain ⟨f, hf⟩ := isFilter_closed houter hlevel ho
  exact ⟨s.phase.ending ++ List.replicate s.outer.length .closeBracket, f, by simpa using hf⟩

/-! ## Beginnings and runs -/

section

variable {m : Limits} {s : State} {ls : List Lexeme} {l : Lexeme}

theorem Runs.begins (h : Runs m .initial ls s) : Begins (ls.map Lexeme.token) := by
  simpa using (reads_initial.run h).begins

/-- The tokens that the parser takes, whatever the limits, are just the beginnings of filters. -/
theorem begins_iff : Begins (ls.map Lexeme.token) ↔ ∃ m s, Runs m .initial ls s := by
  constructor
  · rintro ⟨us, f, hf⟩
    obtain ⟨ks, rfl⟩ : ∃ ks : List Lexeme, ks.map Lexeme.token = us :=
      ⟨us.map fun t => ⟨t, 0⟩, by simp [Function.comp_def]⟩
    rw [← List.map_append] at hf
    obtain ⟨u, -, hrun, -⟩ := hf.runs (m := ⟨f.depth, f.conditions.length⟩) le_rfl le_rfl
    obtain ⟨s, hls, -⟩ := Runs.append_iff.1 hrun
    exact ⟨_, s, hls⟩
  · rintro ⟨m, s, hrun⟩
    exact hrun.begins

/-- A token that goes on a beginning can be taken, if the limits are wide enough. -/
theorem step_of_begins (h : Runs m .initial ls s) (hl : Begins ((ls ++ [l]).map Lexeme.token)) :
    ∃ n s', Step n s l s' := by
  obtain ⟨n, u, hrun⟩ := begins_iff.1 hl
  obtain ⟨t, hls, hstep⟩ := Runs.append_iff.1 hrun
  obtain rfl := h.unique hls
  exact ⟨n, u, Runs.singleton_iff.1 hstep⟩

/-- Behind a whole filter the parser has finished an operand, and no bracket is open. -/
theorem behind_of_isFilter {f : Filter} (h : Runs m .initial ls s)
    (hf : IsFilter (ls.map Lexeme.token) f) : (∃ o, s.behind? = some o) ∧ s.outer = [] := by
  obtain ⟨t, o, hrun, hbehind, houter, -⟩ :=
    hf.runs (m := ⟨f.depth, f.conditions.length⟩) le_rfl le_rfl
  obtain rfl := h.unique hrun
  exact ⟨⟨o, hbehind⟩, houter⟩

end

end Parser

end TagQuery
