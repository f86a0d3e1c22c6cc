import TagQuery.Proofs.Filter.Scanning

/-!
# The grammar of filters

The lists of tokens that stand for a filter, without any limit on their length or nesting:

    filter    = chain ("OR" chain)*
    chain     = operand ("AND" operand)*
    operand   = "(" filter ")" | condition
    condition = entity COMPARISON literal | entity TEST
    entity    = name (":" key)? ("@" origin)?

A derivation `IsFilter ts f` is the filter `f` itself, read off `ts` from left to right.  A filter is
derived from the tokens that it prints as (`isFilter_tokens`), and the names of its conditions are
identifiers of any tokens that it is derived from (`name_mem_of_isFilter`).
-/

namespace TagQuery.Grammar

/-! ## Entities and conditions -/

/-- A key behind a colon, as a name or as a string, or no key. -/
inductive IsKey : List Token → Option String → Prop where
  | none : IsKey [] none
  | name (key : String) : IsKey [.colon, .identifier key] (some key)
  | string (key : String) : IsKey [.colon, .literal (.string key)] (some key)

/-- An origin behind an `@`, or no origin. -/
inductive IsOrigin : List Token → Option Origin → Prop where
  | none : IsOrigin [] none
  | some (o : Origin) : IsOrigin [.at, .identifier o.key] (some o)

/-- A name with its key and its origin. -/
inductive IsEntity : List Token → Entity → Prop where
  | mk (name : String) {ks os : List Token} {key : Option String} {origin : Option Origin} :
      IsKey ks key → IsOrigin os origin →
        IsEntity (.identifier name :: (ks ++ os)) ⟨name, key, origin⟩

/-- A comparison with its value, or a test. -/
inductive IsCondition : List Token → Condition → Prop where
  | compare {ts : List Token} {e : Entity} (op : Comparison) (v : Value) :
      IsEntity ts e → IsCondition (ts ++ [.operator (.comparison op), .literal v]) (.compare e op v)
  | test {ts : List Token} {e : Entity} (op : Test) :
      IsEntity ts e → IsCondition (ts ++ [.operator (.test op)]) (.test e op)

/-! ## Filters -/

mutual

/-- Alternatives joined by `OR`. -/
inductive IsFilter : List Token → Filter → Prop where
  | single {ts : List Token} {c : Chain} : IsChain ts c → IsFilter ts (.single c)
  | or {ts us : List Token} {c : Chain} {f : Filter} :
      IsChain ts c → IsFilter us f → IsFilter (ts ++ .or :: us) (.or c f)

/-- Operands joined by `AND`. -/
inductive IsChain : List Token → Chain → Prop where
  | single {ts : List Token} {o : Operand} : IsOperand ts o → IsChain ts (.single o)
  | and {ts us : List Token} {o : Operand} {c : Chain} :
      IsOperand ts o → IsChain us c → IsChain (ts ++ .and :: us) (.and o c)

/-- A condition, or a filter in brackets. -/
inductive IsOperand : List Token → Operand → Prop where
  | condition {ts : List Token} {c : Condition} : IsCondition ts c → IsOperand ts (.condition c)
  | group {ts : List Token} {f : Filter} :
      IsFilter ts f → IsOperand (.openBracket :: (ts ++ [.closeBracket])) (.group f)

end

/-! ## Printed filters -/

theorem isEntity_tokens (e : Entity) : IsEntity e.tokens e := by
  obtain ⟨name, key, origin⟩ := e
  cases key with
  | none =>
    cases origin with
    | none => exact .mk name .none .none
    | some o => exact .mk name .none (.some o)
  | some key =>
    cases origin with
    | none => exact .mk name (.string key) .none
    | some o => exact .mk name (.string key) (.some o)

theorem isCondition_tokens (c : Condition) : IsCondition c.tokens c := by
  cases c with
  | compare e op v => exact .compare op v (isEntity_tokens e)
  | test e op => exact .test op (isEntity_tokens e)

mutual

/-- A filter is derived from the tokens that it prints as. -/
theorem isFilter_tokens : ∀ f : Filter, IsFilter f.tokens f
  | .single c => .single (isChain_tokens c)
  | .or c f => .or (isChain_tokens c) (isFilter_tokens f)

theorem isChain_tokens : ∀ c : Chain, IsChain c.tokens c
  | .single o => .single (isOperand_tokens o)
  | .and o c => .and (isOperand_tokens o) (isChain_tokens c)

theorem isOperand_tokens : ∀ o : Operand, IsOperand o.tokens o
  | .condition c => .condition (isCondition_tokens c)
  | .group f => .group (isFilter_tokens f)

end

/-! ## Names -/

theorem name_mem_of_isCondition {ts : List Token} {c : Condition} (h : IsCondition ts c) :
    .identifier c.entity.name ∈ ts := by
  rcases h with ⟨-, -, he⟩ | ⟨-, he⟩ <;>
  · obtain ⟨-, -⟩ := he
    simp [Condition.entity]

mutual

/-- The name of each condition is an identifier among the tokens. -/
theorem name_mem_of_isFilter : ∀ {ts : List Token} {f : Filter}, IsFilter ts f →
    ∀ c ∈ f.conditions, .identifier c.entity.name ∈ ts
  | _, _, .single hc => name_mem_of_isChain hc
  | _, _, .or hc hf => by
    intro c hmem
    rcases List.mem_append.1 hmem with hmem | hmem
    · exact List.mem_append_left _ (name_mem_of_isChain hc c hmem)
    · exact List.mem_append_right _ (List.mem_cons_of_mem _ (name_mem_of_isFilter hf c hmem))

theorem name_mem_of_isChain : ∀ {ts : List Token} {c : Chain}, IsChain ts c →
    ∀ d ∈ c.conditions, .identifier d.entity.name ∈ ts
  | _, _, .single ho => name_mem_of_isOperand ho
  | _, _, .and ho hc => by
    intro d hmem
    rcases List.mem_append.1 hmem with hmem | hmem
    · exact List.mem_append_left _ (name_mem_of_isOperand ho d hmem)
    · exact List.mem_append_right _ (List.mem_cons_of_mem _ (name_mem_of_isChain hc d hmem))

theorem name_mem_of_isOperand : ∀ {ts : List Token} {o : Operand}, IsOperand ts o →
    ∀ c ∈ o.conditions, .identifier c.entity.name ∈ ts
  | _, _, .condition hc => by
    intro c hmem
    obtain rfl := List.mem_singleton.1 hmem
    exact name_mem_of_isCondition hc
  | _, _, .group hf => by
    intro c hmem
    exact List.mem_cons_of_mem _ (List.mem_append_left _ (name_mem_of_isFilter hf c hmem))

end

end TagQuery.Grammar
