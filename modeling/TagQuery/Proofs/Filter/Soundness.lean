import TagQuery.Proofs.Filter.Grammar
import TagQuery.Proofs.Filter.Steps

/-!
# From runs to derivations

Every state of the parser stands for the tokens that have led to it (`Reads`), cut into what is around
the level in progress, that level, and what stands behind its last connective:

    Reads s ts → Step m s l s' → Reads s' (ts ++ [l.token])                (Reads.step)

A level that ends with an operand is a filter (`isFilter_of_isLevel`), which is what the parser gives at the
end of a text.
-/

namespace TagQuery.Parser

open Grammar

/-! ## States and their tokens -/

/-- The tokens of finished alternatives, each with the `OR` behind it. -/
inductive IsChains : List Token → List Chain → Prop where
  | nil : IsChains [] []
  | cons {ts us : List Token} {c : Chain} {cs : List Chain} :
      IsChains ts cs → IsChain us c → IsChains (ts ++ (us ++ [.or])) (c :: cs)

/-- The tokens of finished operands, each with the `AND` behind it. -/
inductive IsOperands : List Token → List Operand → Prop where
  | nil : IsOperands [] []
  | cons {ts us : List Token} {o : Operand} {os : List Operand} :
      IsOperands ts os → IsOperand us o → IsOperands (ts ++ (us ++ [.and])) (o :: os)

/-- The tokens of what has been read of a level. -/
inductive IsLevel : List Token → Level → Prop where
  | mk {ts us : List Token} {l : Level} :
      IsChains ts l.chains → IsOperands us l.operands → IsLevel (ts ++ us) l

/-- The tokens of the levels around the one in progress, each with the bracket that ends it. -/
inductive IsOuter : List Token → List (Nat × Level) → Prop where
  | nil : IsOuter [] []
  | cons {ts us : List Token} {position : Nat} {l : Level} {outer : List (Nat × Level)} :
      IsOuter ts outer → IsLevel us l →
        IsOuter (ts ++ (us ++ [.openBracket])) ((position, l) :: outer)

/-- The tokens behind the last connective or bracket. -/
inductive IsPhase : List Token → Phase → Prop where
  | operand : IsPhase [] .operand
  | entity {ts : List Token} {e : Entity} : IsEntity ts e → IsPhase ts (.entity e)
  | key {ts : List Token} {e : Entity} : IsEntity ts e → e.key = none → e.origin = none →
      IsPhase (ts ++ [.colon]) (.key e)
  | origin {ts : List Token} {e : Entity} : IsEntity ts e → e.origin = none →
      IsPhase (ts ++ [.at]) (.origin e)
  | value {ts : List Token} {e : Entity} {op : Comparison} {position : Nat} : IsEntity ts e →
      IsPhase (ts ++ [.operator (.comparison op)]) (.value e op position)
  | noValue {ts : List Token} {e : Entity} {op : Test} {position : Nat} : IsEntity ts e →
      IsPhase (ts ++ [.operator (.test op)]) (.noValue e op position)
  | after {ts : List Token} {o : Operand} : IsOperand ts o → IsPhase ts (.after o)

/-- The tokens that lead to a state. -/
def Reads (s : State) (ts : List Token) : Prop :=
  ∃ us vs ws, us ++ (vs ++ ws) = ts ∧ IsOuter us s.outer ∧ IsLevel vs s.level ∧ IsPhase ws s.phase

theorem isLevel_empty : IsLevel [] .empty :=
  @IsLevel.mk [] [] .empty .nil .nil

theorem reads_initial : Reads .initial [] :=
  ⟨[], [], [], rfl, .nil, isLevel_empty, .operand⟩

/-! ## Parts of a state -/

theorem isEntity_withKey {ts us : List Token} {e : Entity} {key : Option String}
    (h : IsEntity ts e) (hkey : e.key = none) (horigin : e.origin = none) (k : IsKey us key) :
    IsEntity (ts ++ us) { e with key := key } := by
  obtain ⟨name, key', origin⟩ := e
  obtain rfl : key' = none := hkey
  obtain rfl : origin = none := horigin
  cases h with
  | mk _ hk ho =>
    cases hk
    cases ho
    simpa using IsEntity.mk name k .none

theorem isEntity_withOrigin {ts us : List Token} {e : Entity} {origin : Option Origin}
    (h : IsEntity ts e) (horigin : e.origin = none) (k : IsOrigin us origin) :
    IsEntity (ts ++ us) { e with origin := origin } := by
  obtain ⟨name, key, origin'⟩ := e
  obtain rfl : origin' = none := horigin
  cases h with
  | mk _ hk ho =>
    cases ho
    simpa using IsEntity.mk name hk k

theorem isOperand_of_behind {s : State} {ts : List Token} {o : Operand} (h : IsPhase ts s.phase)
    (behind : s.behind? = some o) : IsOperand ts o := by
  unfold State.behind? at behind
  split at behind
  · next hphase =>
    rw [hphase] at h
    cases h with
    | noValue he =>
      obtain rfl := Option.some.inj behind
      exact .condition (.test _ he)
  · next hphase =>
    rw [hphase] at h
    cases h with
    | after ho =>
      obtain rfl := Option.some.inj behind
      exact ho
  · simp at behind

theorem isChain_withChain {ts us : List Token} {os : List Operand} {c : Chain}
    (h : IsOperands ts os) (hc : IsChain us c) :
    IsChain (ts ++ us) (os.foldl (fun rest o => .and o rest) c) := by
  induction h generalizing us c with
  | nil => exact hc
  | cons _ ho ih => simpa using ih (.and ho hc)

theorem isFilter_withFilter {ts us : List Token} {cs : List Chain} {f : Filter}
    (h : IsChains ts cs) (hf : IsFilter us f) :
    IsFilter (ts ++ us) (cs.foldl (fun rest c => .or c rest) f) := by
  induction h generalizing us f with
  | nil => exact hf
  | cons _ hc ih => simpa using ih (.or hc hf)

/-- A level that ends with an operand is a filter. -/
theorem isFilter_of_isLevel {ts us : List Token} {l : Level} {o : Operand} (h : IsLevel ts l)
    (ho : IsOperand us o) : IsFilter (ts ++ us) (l.filter o) := by
  cases h with
  | mk hchains hoperands =>
    have hchain : IsChain _ (l.chain o) := isChain_withChain hoperands (.single ho)
    rw [List.append_assoc]
    exact isFilter_withFilter hchains (.single hchain)

/-! ## Steps -/

/-- What stands behind a colon is the key of the entity before it. -/
theorem isPhase_key {ws : List Token} {e : Entity} {t : Token} {key : String} (h : IsPhase ws (.key e))
    (token : t = .identifier key ∨ t = .literal (.string key)) :
    IsPhase (ws ++ [t]) (.entity { e with key := some key }) := by
  cases h with
  | @key ts _ he hkey horigin =>
    have hnew : IsKey [.colon, t] (some key) := by
      rcases token with rfl | rfl
      · exact .name key
      · exact .string key
    rw [List.append_assoc]
    exact .entity (isEntity_withKey he hkey horigin hnew)

/-- What stands behind an `@` is the origin of the entity before it. -/
theorem isPhase_origin {ws : List Token} {e : Entity} {o : Origin} (h : IsPhase ws (.origin e)) :
    IsPhase (ws ++ [.identifier o.key]) (.entity { e with origin := some o }) := by
  cases h with
  | @origin ts _ he horigin =>
    rw [List.append_assoc]
    exact .entity (isEntity_withOrigin he horigin (.some o))

namespace Reads

variable {s s' : State} {ts : List Token} {o : Operand}

/-- Inside a condition, the tokens behind the last connective grow. -/
theorem within {t : Token} (h : Reads s ts) (outer : s'.outer = s.outer) (level : s'.level = s.level)
    (grow : ∀ {ws : List Token}, IsPhase ws s.phase → IsPhase (ws ++ [t]) s'.phase) :
    Reads s' (ts ++ [t]) := by
  obtain ⟨us, vs, ws, rfl, houter, hlevel, hphase⟩ := h
  exact ⟨us, vs, ws ++ [t], by simp, outer ▸ houter, level ▸ hlevel, grow hphase⟩

theorem openBracket {position : Nat} (h : Reads s ts) (phase : s.phase = .operand) :
    Reads { s with level := .empty, outer := (position, s.level) :: s.outer } (ts ++ [.openBracket]) := by
  obtain ⟨us, vs, ws, rfl, houter, hlevel, hphase⟩ := h
  rw [phase] at hphase
  cases hphase
  refine ⟨us ++ (vs ++ [.openBracket]), [], [], by simp, .cons houter hlevel, isLevel_empty, ?_⟩
  rw [phase]
  exact .operand

theorem and (h : Reads s ts) (behind : s.behind? = some o) :
    Reads { s with level := ⟨s.level.chains, o :: s.level.operands⟩, phase := .operand }
      (ts ++ [.and]) := by
  obtain ⟨us, vs, ws, rfl, houter, hlevel, hphase⟩ := h
  have ho := isOperand_of_behind hphase behind
  cases hlevel with
  | mk hchains hoperands =>
    exact ⟨us, _ ++ (_ ++ (ws ++ [.and])), [], by simp, houter, .mk hchains (.cons hoperands ho), .operand⟩

theorem or (h : Reads s ts) (behind : s.behind? = some o) :
    Reads { s with level := ⟨s.level.chain o :: s.level.chains, []⟩, phase := .operand } (ts ++ [.or]) := by
  obtain ⟨us, vs, ws, rfl, houter, hlevel, hphase⟩ := h
  have ho := isOperand_of_behind hphase behind
  cases hlevel with
  | mk hchains hoperands =>
    have hchain : IsChain _ (s.level.chain o) := isChain_withChain hoperands (.single ho)
    exact ⟨us, _ ++ ((_ ++ ws) ++ [.or]) ++ [], [], by simp, houter, .mk (.cons hchains hchain) .nil,
      .operand⟩

theorem closeBracket {position : Nat} {level : Level} {outer : List (Nat × Level)} (h : Reads s ts)
    (behind : s.behind? = some o) (bracket : s.outer = (position, level) :: outer) :
    Reads { s with level, outer, phase := .after (.group (s.level.filter o)) } (ts ++ [.closeBracket]) := by
  obtain ⟨us, vs, ws, rfl, houter, hlevel, hphase⟩ := h
  have hgroup := IsOperand.group (isFilter_of_isLevel hlevel (isOperand_of_behind hphase behind))
  rw [bracket] at houter
  cases houter with
  | cons houter' hlevel' => exact ⟨_, _, _, by simp, houter', hlevel', .after hgroup⟩

/-- A token leads from what stands for the tokens before it to what stands for them and it. -/
theorem step {m : Limits} {l : Lexeme} (h : Reads s ts) (hs : Step m s l s') :
    Reads s' (ts ++ [l.token]) := by
  cases hs with
  | openBracket phase token => exact token ▸ h.openBracket phase
  | and behind token => exact token ▸ h.and behind
  | or behind token => exact token ▸ h.or behind
  | closeBracket behind token bracket => exact token ▸ h.closeBracket behind bracket
  | @name name phase token =>
    refine h.within rfl rfl fun hphase => ?_
    rw [phase] at hphase
    cases hphase
    rw [token]
    exact .entity (.mk name .none .none)
  | key phase token => exact h.within rfl rfl fun hphase => isPhase_key (phase ▸ hphase) token
  | origin phase token => exact h.within rfl rfl fun hphase => token ▸ isPhase_origin (phase ▸ hphase)
  | colon phase token key origin =>
    refine h.within rfl rfl fun hphase => ?_
    rw [phase] at hphase
    cases hphase with
    | entity he => exact token ▸ .key he key origin
  | «at» phase token origin =>
    refine h.within rfl rfl fun hphase => ?_
    rw [phase] at hphase
    cases hphase with
    | entity he => exact token ▸ .origin he origin
  | comparison phase token =>
    refine h.within rfl rfl fun hphase => ?_
    rw [phase] at hphase
    cases hphase with
    | entity he => exact token ▸ .value he
  | test phase token =>
    refine h.within rfl rfl fun hphase => ?_
    rw [phase] at hphase
    cases hphase with
    | entity he => exact token ▸ .noValue he
  | @value e op position v phase token =>
    refine h.within rfl rfl fun hphase => ?_
    rw [phase] at hphase
    cases hphase with
    | value he =>
      rw [token, List.append_assoc]
      exact .after (.condition (.compare op v he))

theorem run {m : Limits} {ls : List Lexeme} (h : Reads s ts) (hr : Runs m s ls s') :
    Reads s' (ts ++ ls.map Lexeme.token) := by
  induction hr generalizing ts with
  | nil => simpa using h
  | cons hs _ ih => simpa using ih (h.step hs)

/-- At the end of a text, the tokens stand for the filter that the parser gives. -/
theorem isFilter (h : Reads s ts) (behind : s.behind? = some o) (outer : s.outer = []) :
    IsFilter ts (s.level.filter o) := by
  obtain ⟨us, vs, ws, rfl, hus, hvs, hws⟩ := h
  rw [outer] at hus
  cases hus
  rw [List.nil_append]
  exact isFilter_of_isLevel hvs (isOperand_of_behind hws behind)

end Reads

end TagQuery.Parser
