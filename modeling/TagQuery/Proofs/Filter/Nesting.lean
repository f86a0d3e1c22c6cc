import TagQuery.Proofs.Filter.Parsing

/-!
# The limits as facts on the tokens

How deep the brackets of a filter are nested, and how many conditions it has, can be seen on the tokens
without the filter: a token lies inside the brackets that have been opened and not closed again before it,
and each condition has one operator.

    IsFilter ts f → (NestedLe n ts ↔ f.depth ≤ n)                              (nestedLe_iff)
    IsFilter ts f → conditionCount ts = f.conditions.length                    (conditionCount_eq)

So the parser accepts just the texts whose tokens have a derivation, lie inside 64 brackets at most and make
up 1024 conditions at most, and the derivation is what it gives (`parse_accepts_grammar`).
-/

namespace TagQuery

/-- The token stands between the two sides of a condition. -/
def Token.isOperator : Token → Bool
  | .operator _ => true
  | _ => false

namespace Grammar

/-- No token lies inside more than `n` nested brackets: around a token are those that have been opened
and not closed again before it. -/
def NestedLe (n : Nat) (ts : List Token) : Prop :=
  ∀ us t vs, ts = us ++ t :: vs → us.count .openBracket ≤ us.count .closeBracket + n

/-- How many conditions the tokens make up: each has one operator. -/
def conditionCount (ts : List Token) : Nat :=
  ts.countP Token.isOperator

/-! ## Tokens that are put together -/

/-- The brackets of the tokens match and are nested `depth` deep, and the tokens make up `conditions`
conditions. -/
structure Measures (ts : List Token) (depth conditions : Nat) : Prop where
  balanced : ts.count .openBracket = ts.count .closeBracket
  within : ∀ us vs, ts = us ++ vs → us.count .openBracket ≤ us.count .closeBracket + depth
  reached : ∃ us t vs, ts = us ++ t :: vs ∧ us.count .openBracket = us.count .closeBracket + depth
  operators : conditionCount ts = conditions

section

variable {ts us : List Token} {m n k l : Nat}

theorem conditionCount_append (ts us : List Token) :
    conditionCount (ts ++ us) = conditionCount ts + conditionCount us :=
  List.countP_append

/-- Tokens without brackets. -/
theorem measures_flat (ne : ts ≠ []) (opened : ts.count .openBracket = 0)
    (closed : ts.count .closeBracket = 0) : Measures ts 0 (conditionCount ts) where
  balanced := by rw [opened, closed]
  within us vs h := by
    rw [h, List.count_append] at opened
    omega
  reached := by
    obtain ⟨t, vs, rfl⟩ := List.exists_cons_of_ne_nil ne
    exact ⟨[], t, vs, rfl, rfl⟩
  operators := rfl

/-- A connective is no bracket. -/
theorem count_connective {t b : Token} (connective : t = .and ∨ t = .or)
    (bracket : b = .openBracket ∨ b = .closeBracket) : [t].count b = 0 := by
  rcases connective with rfl | rfl <;> rcases bracket with rfl | rfl <;> rfl

/-- Tokens joined by a connective: the deeper of the two sides counts, and all the conditions. -/
theorem Measures.join {t : Token} (h : Measures ts m k) (h' : Measures us n l)
    (connective : t = .and ∨ t = .or) : Measures (ts ++ t :: us) (max m n) (k + l) := by
  have hopen := count_connective connective (.inl rfl)
  have hclose := count_connective connective (.inr rfl)
  have hbalanced := h.balanced
  have hbalanced' := h'.balanced
  rw [List.append_cons]
  constructor
  case balanced =>
    simp only [List.count_append, hopen, hclose]
    omega
  case within =>
    intro ws vs hws
    -- `ws` goes on into the second row, takes the connective, or ends in the first row
    rcases List.append_eq_append_iff.1 hws with ⟨as, rfl, hus⟩ | ⟨bs, hts, -⟩
    · have hle := h'.within as vs hus
      simp only [List.count_append, hopen, hclose]
      omega
    · rcases List.append_eq_append_iff.1 hts with ⟨as, rfl, has⟩ | ⟨as, rfl, -⟩
      · have hopened := congrArg (List.count .openBracket) has
        rw [hopen, List.count_append] at hopened
        rw [List.count_append, List.count_append]
        omega
      · have hle := h.within ws as rfl
        omega
  case reached =>
    rcases Nat.le_total n m with hnm | hmn
    · obtain ⟨ws, u, vs, rfl, hreached⟩ := h.reached
      refine ⟨ws, u, vs ++ t :: us, by simp, ?_⟩
      rw [Nat.max_eq_left hnm, hreached]
    · obtain ⟨ws, u, vs, rfl, hreached⟩ := h'.reached
      refine ⟨ts ++ [t] ++ ws, u, vs, by simp, ?_⟩
      simp only [List.count_append, hopen, hclose]
      omega
  case operators =>
    have hcount : conditionCount [t] = 0 := by rcases connective with rfl | rfl <;> rfl
    rw [conditionCount_append, conditionCount_append, hcount, h.operators, h'.operators]
    rfl

/-- Tokens in brackets are nested one deeper. -/
theorem Measures.group (h : Measures ts n k) :
    Measures (.openBracket :: (ts ++ [.closeBracket])) (n + 1) k := by
  have hopen : [Token.closeBracket].count .openBracket = 0 := rfl
  have hclose : [Token.closeBracket].count .closeBracket = 1 := rfl
  have hbalanced := h.balanced
  constructor
  case balanced =>
    rw [List.count_cons_self, List.count_cons_of_ne (by decide), List.count_append, List.count_append,
      hopen, hclose]
    omega
  case within =>
    intro ws vs hws
    rcases List.cons_eq_append_iff.1 hws with ⟨rfl, -⟩ | ⟨as, rfl, has⟩
    · exact Nat.zero_le _
    · rw [List.count_cons_self, List.count_cons_of_ne (by decide)]
      rcases List.append_eq_append_iff.1 has with ⟨bs, rfl, hbs⟩ | ⟨bs, rfl, -⟩
      · have hopened := congrArg (List.count .openBracket) hbs
        rw [hopen, List.count_append] at hopened
        rw [List.count_append, List.count_append]
        omega
      · have hle := h.within as bs rfl
        omega
  case reached =>
    obtain ⟨ws, t, vs, rfl, hreached⟩ := h.reached
    refine ⟨.openBracket :: ws, t, vs ++ [.closeBracket], by simp, ?_⟩
    rw [List.count_cons_self, List.count_cons_of_ne (by decide), hreached]
    omega
  case operators =>
    show conditionCount ([.openBracket] ++ (ts ++ [.closeBracket])) = k
    rw [conditionCount_append, conditionCount_append, h.operators]
    show 0 + (k + 0) = k
    omega

end

/-! ## Filters -/

/-- The tokens of an entity are neither brackets nor operators. -/
theorem count_isEntity {ts : List Token} {e : Entity} (h : IsEntity ts e) :
    ts.count .openBracket = 0 ∧ ts.count .closeBracket = 0 ∧ conditionCount ts = 0 := by
  obtain ⟨name, hkey, horigin⟩ := h
  cases hkey <;> cases horigin <;> exact ⟨rfl, rfl, rfl⟩

theorem IsCondition.measures {ts : List Token} {c : Condition} (h : IsCondition ts c) :
    Measures ts 0 1 := by
  cases h with
  | @compare ts e op v he =>
    obtain ⟨hopen, hclose, hcount⟩ := count_isEntity he
    have htokens := @measures_flat (ts ++ [.operator (.comparison op), .literal v]) (by simp)
      (by rw [List.count_append, hopen]; rfl) (by rw [List.count_append, hclose]; rfl)
    rwa [conditionCount_append, hcount] at htokens
  | @test ts e op he =>
    obtain ⟨hopen, hclose, hcount⟩ := count_isEntity he
    have htokens := @measures_flat (ts ++ [.operator (.test op)]) (by simp)
      (by rw [List.count_append, hopen]; rfl) (by rw [List.count_append, hclose]; rfl)
    rwa [conditionCount_append, hcount] at htokens

mutual

/-- The tokens of a filter are nested as deep as the filter is, and make up its conditions. -/
theorem IsFilter.measures : ∀ {ts : List Token} {f : Filter}, IsFilter ts f →
    Measures ts f.depth f.conditions.length
  | _, _, .single hc => hc.measures
  | _, _, .or hc hf => by
    rw [Filter.depth, Filter.conditions, List.length_append]
    exact hc.measures.join hf.measures (.inr rfl)

theorem IsChain.measures : ∀ {ts : List Token} {c : Chain}, IsChain ts c →
    Measures ts c.depth c.conditions.length
  | _, _, .single ho => ho.measures
  | _, _, .and ho hc => by
    rw [Chain.depth, Chain.conditions, List.length_append]
    exact ho.measures.join hc.measures (.inl rfl)

theorem IsOperand.measures : ∀ {ts : List Token} {o : Operand}, IsOperand ts o →
    Measures ts o.depth o.conditions.length
  | _, _, .condition hc => hc.measures
  | _, _, .group hf => hf.measures.group

end

variable {ts : List Token} {f : Filter}

theorem nestedLe_iff (h : IsFilter ts f) (n : Nat) : NestedLe n ts ↔ f.depth ≤ n := by
  obtain ⟨-, hwithin, ⟨us, t, vs, hts, hreached⟩, -⟩ := h.measures
  constructor
  · intro hnested
    have hle := hnested us t vs hts
    omega
  · intro hdepth us t vs hts
    have hle := hwithin us (t :: vs) hts
    omega

theorem conditionCount_eq (h : IsFilter ts f) : conditionCount ts = f.conditions.length :=
  h.measures.operators

end Grammar

namespace Filter

open Grammar

/-- **The parser accepts exactly its grammar**, up to the limits: it gives a filter if and only if the
tokens of the text derive it, none of them lies inside more brackets than may be nested, and they make up no
more conditions than a filter may have. -/
theorem parse_accepts_grammar {text : String} {f : Filter} :
    parse text = .ok f ↔
      ∃ ls, Lexeme.read text = .ok ls ∧ IsFilter (ls.map Lexeme.token) f
        ∧ NestedLe maxDepth (ls.map Lexeme.token)
        ∧ conditionCount (ls.map Lexeme.token) ≤ maxConditions := by
  rw [parse_ok_iff]
  constructor
  · rintro ⟨ls, hread, hfilter, hdepth, hcount⟩
    exact ⟨ls, hread, hfilter, (nestedLe_iff hfilter maxDepth).2 hdepth,
      by rwa [conditionCount_eq hfilter]⟩
  · rintro ⟨ls, hread, hfilter, hnested, hcount⟩
    exact ⟨ls, hread, hfilter, (nestedLe_iff hfilter maxDepth).1 hnested,
      by rwa [← conditionCount_eq hfilter]⟩

end Filter

end TagQuery
