import TagQuery.Proofs.Filter.Grammar
import TagQuery.Proofs.Filter.Steps

/-!
# From derivations to runs

The steps of the parser follow a derivation: at the start of a level, the tokens of a filter lead to the
end of that filter, as long as the limits are wide enough for it.

    IsFilter ts f → … → ∃ s' o, Runs m s ls s' ∧ Behind s s' o f.conditions.length ∧ …    (runs_filter)

So no list of tokens stands for two filters (`IsFilter.unique`).
-/

namespace TagQuery.Parser

open Grammar

/-- From `s` the run has come to `s'`, behind the operand `o`, over `count` conditions. -/
structure Behind (s s' : State) (o : Operand) (count : Nat) : Prop where
  operand : s'.behind? = some o
  outer : s'.outer = s.outer
  conditions : s'.conditions = s.conditions + count

section

variable {m : Limits} {s : State} {ts : List Token} {ls : List Lexeme}

theorem runs_key {name : String} {key : Option String} (h : IsKey ts key)
    (phase : s.phase = .entity ⟨name, none, none⟩) (tokens : ls.map Lexeme.token = ts) :
    Runs m s ls { s with phase := .entity ⟨name, key, none⟩ } := by
  cases h with
  | none =>
    obtain rfl := List.map_eq_nil_iff.1 tokens
    rw [← phase]
    exact .nil
  | name key =>
    obtain ⟨l, ks, rfl, hl, hks⟩ := List.map_eq_cons_iff.1 tokens
    obtain ⟨k, rfl, hk⟩ := List.map_eq_singleton_iff.1 hks
    exact .cons (.colon phase hl rfl rfl) (.cons (.key rfl (.inl hk)) .nil)
  | string key =>
    obtain ⟨l, ks, rfl, hl, hks⟩ := List.map_eq_cons_iff.1 tokens
    obtain ⟨k, rfl, hk⟩ := List.map_eq_singleton_iff.1 hks
    exact .cons (.colon phase hl rfl rfl) (.cons (.key rfl (.inr hk)) .nil)

theorem runs_origin {name : String} {key : Option String} {origin : Option Origin}
    (h : IsOrigin ts origin) (phase : s.phase = .entity ⟨name, key, none⟩)
    (tokens : ls.map Lexeme.token = ts) :
    Runs m s ls { s with phase := .entity ⟨name, key, origin⟩ } := by
  cases h with
  | none =>
    obtain rfl := List.map_eq_nil_iff.1 tokens
    rw [← phase]
    exact .nil
  | some o =>
    obtain ⟨l, ks, rfl, hl, hks⟩ := List.map_eq_cons_iff.1 tokens
    obtain ⟨k, rfl, hk⟩ := List.map_eq_singleton_iff.1 hks
    exact .cons (.at phase hl rfl) (.cons (.origin rfl hk) .nil)

theorem runs_entity {e : Entity} (h : IsEntity ts e) (phase : s.phase = .operand)
    (fits : s.conditions < m.conditions) (tokens : ls.map Lexeme.token = ts) :
    Runs m s ls { s with conditions := s.conditions + 1, phase := .entity e } := by
  cases h with
  | mk name hkey horigin =>
    obtain ⟨l, ks, rfl, hl, hks⟩ := List.map_eq_cons_iff.1 tokens
    obtain ⟨ks, os, rfl, hks, hos⟩ := List.map_eq_append_iff.1 hks
    exact .cons (.name phase hl fits)
      ((runs_key hkey rfl hks).append (runs_origin horigin rfl hos))

theorem runs_condition {c : Condition} (h : IsCondition ts c) (phase : s.phase = .operand)
    (fits : s.conditions < m.conditions) (tokens : ls.map Lexeme.token = ts) :
    ∃ s', Runs m s ls s' ∧ Behind s s' (.condition c) 1 ∧ s'.level = s.level := by
  cases h with
  | compare op v he =>
    obtain ⟨es, ks, rfl, hes, hks⟩ := List.map_eq_append_iff.1 tokens
    obtain ⟨l, ks, rfl, hl, hks⟩ := List.map_eq_cons_iff.1 hks
    obtain ⟨k, rfl, hk⟩ := List.map_eq_singleton_iff.1 hks
    have hentity := runs_entity he phase fits hes
    exact ⟨_, hentity.append (.cons (.comparison rfl hl) (.cons (.value rfl hk) .nil)),
      ⟨rfl, rfl, rfl⟩, rfl⟩
  | test op he =>
    obtain ⟨es, ks, rfl, hes, hks⟩ := List.map_eq_append_iff.1 tokens
    obtain ⟨l, rfl, hl⟩ := List.map_eq_singleton_iff.1 hks
    have hentity := runs_entity he phase fits hes
    exact ⟨_, hentity.append (.cons (.test rfl hl) .nil), ⟨rfl, rfl, rfl⟩, rfl⟩

end

mutual

/-- At the start of a level, the tokens of a filter lead to the end of that filter. -/
theorem runs_filter {m : Limits} : ∀ {ts : List Token} {f : Filter}, IsFilter ts f →
    ∀ {s : State} {ls : List Lexeme}, s.phase = .operand → s.level.operands = [] →
      s.outer.length + f.depth ≤ m.depth → s.conditions + f.conditions.length ≤ m.conditions →
      ls.map Lexeme.token = ts →
      ∃ s' o, Runs m s ls s' ∧ Behind s s' o f.conditions.length
        ∧ s'.level.filter o = s.level.withFilter f
  | _, _, .single hc, s, _, phase, level, depth, conditions, tokens => by
    obtain ⟨s', o, hrun, hbehind, hchains, hchain⟩ := runs_chain hc phase depth conditions tokens
    refine ⟨s', o, hrun, hbehind, ?_⟩
    rw [Level.filter_eq, hchain, Level.withFilter, Level.withFilter, hchains, Level.withChain, level]
    rfl
  | _, _, .or hc hf, s, _, phase, level, depth, conditions, tokens => by
    simp only [Filter.depth, Filter.conditions, List.length_append] at depth conditions
    obtain ⟨cs, ks, rfl, hcs, hks⟩ := List.map_eq_append_iff.1 tokens
    obtain ⟨l, fs, rfl, hl, hfs⟩ := List.map_eq_cons_iff.1 hks
    obtain ⟨t, o, hrun, hbehind, hchains, hchain⟩ :=
      runs_chain (m := m) hc phase (by omega) (by omega) hcs
    have hor := Step.or (m := m) hbehind.operand hl
    obtain ⟨u, p, hrest, hafter, hfilter⟩ :=
      runs_filter (m := m) hf
        (s := ⟨⟨t.level.chain o :: t.level.chains, []⟩, t.outer, t.conditions, .operand⟩) rfl rfl
        (by simp only [hbehind.outer]; omega) (by simp only [hbehind.conditions]; omega) hfs
    refine ⟨u, p, hrun.append (.cons hor hrest), ⟨hafter.operand, ?_, ?_⟩, ?_⟩
    · rw [hafter.outer, hbehind.outer]
    · rw [hafter.conditions, hbehind.conditions, Filter.conditions, List.length_append,
        Nat.add_assoc]
    · rw [hfilter, Level.withFilter, Level.withFilter, hchain, hchains, Level.withChain, level]
      rfl

/-- The tokens of a chain lead to the end of that chain. -/
theorem runs_chain {m : Limits} : ∀ {ts : List Token} {c : Chain}, IsChain ts c →
    ∀ {s : State} {ls : List Lexeme}, s.phase = .operand →
      s.outer.length + c.depth ≤ m.depth → s.conditions + c.conditions.length ≤ m.conditions →
      ls.map Lexeme.token = ts →
      ∃ s' o, Runs m s ls s' ∧ Behind s s' o c.conditions.length
        ∧ s'.level.chains = s.level.chains ∧ s'.level.chain o = s.level.withChain c
  | _, _, .single ho, s, _, phase, depth, conditions, tokens => by
    obtain ⟨s', hrun, hbehind, hlevel⟩ := runs_operand ho phase depth conditions tokens
    exact ⟨s', _, hrun, hbehind, by rw [hlevel], by rw [hlevel]; rfl⟩
  | _, _, .and ho hc, s, _, phase, depth, conditions, tokens => by
    simp only [Chain.depth, Chain.conditions, List.length_append] at depth conditions
    obtain ⟨os, ks, rfl, hos, hks⟩ := List.map_eq_append_iff.1 tokens
    obtain ⟨l, cs, rfl, hl, hcs⟩ := List.map_eq_cons_iff.1 hks
    obtain ⟨t, hrun, hbehind, hlevel⟩ := runs_operand (m := m) ho phase (by omega)
      (by omega) hos
    have hand := Step.and (m := m) hbehind.operand hl
    obtain ⟨u, p, hrest, hafter, hchains, hchain⟩ :=
      runs_chain (m := m) hc
        (s := ⟨⟨t.level.chains, _ :: t.level.operands⟩, t.outer, t.conditions, .operand⟩) rfl
        (by simp only [hbehind.outer]; omega) (by simp only [hbehind.conditions]; omega) hcs
    refine ⟨u, p, hrun.append (.cons hand hrest), ⟨hafter.operand, ?_, ?_⟩, ?_, ?_⟩
    · rw [hafter.outer, hbehind.outer]
    · rw [hafter.conditions, hbehind.conditions, Chain.conditions, List.length_append,
        Nat.add_assoc]
    · rw [hchains, hlevel]
    · rw [hchain, Level.withChain, Level.withChain, hlevel]
      rfl

/-- The tokens of an operand lead to the end of that operand. -/
theorem runs_operand {m : Limits} : ∀ {ts : List Token} {o : Operand}, IsOperand ts o →
    ∀ {s : State} {ls : List Lexeme}, s.phase = .operand →
      s.outer.length + o.depth ≤ m.depth → s.conditions + o.conditions.length ≤ m.conditions →
      ls.map Lexeme.token = ts →
      ∃ s', Runs m s ls s' ∧ Behind s s' o o.conditions.length ∧ s'.level = s.level
  | _, _, .condition hc, s, _, phase, _, conditions, tokens =>
    runs_condition hc phase conditions tokens
  | _, _, .group hf, s, _, phase, depth, conditions, tokens => by
    simp only [Operand.depth] at depth
    obtain ⟨l, ks, rfl, hl, hks⟩ := List.map_eq_cons_iff.1 tokens
    obtain ⟨fs, ks, rfl, hfs, hks⟩ := List.map_eq_append_iff.1 hks
    obtain ⟨k, rfl, hk⟩ := List.map_eq_singleton_iff.1 hks
    have hopen := Step.openBracket (m := m) phase hl (by omega)
    obtain ⟨t, p, hrun, hbehind, hfilter⟩ :=
      runs_filter (m := m) hf
        (s := ⟨.empty, (l.position, s.level) :: s.outer, s.conditions, s.phase⟩) phase rfl
        (by simp only [List.length_cons]; omega) conditions hfs
    have hclose := Step.closeBracket (m := m) hbehind.operand hk hbehind.outer
    refine ⟨_, .cons hopen (hrun.append (.cons hclose .nil)), ⟨?_, rfl, hbehind.conditions⟩, rfl⟩
    rw [hfilter]
    rfl

end

end TagQuery.Parser

/-! ## Filters -/

namespace TagQuery.Grammar

open TagQuery.Parser

mutual

theorem IsFilter.ne_nil : ∀ {ts : List Token} {f : Filter}, IsFilter ts f → ts ≠ []
  | _, _, .single hc => hc.ne_nil
  | _, _, .or _ _ => by simp

theorem IsChain.ne_nil : ∀ {ts : List Token} {c : Chain}, IsChain ts c → ts ≠ []
  | _, _, .single ho => ho.ne_nil
  | _, _, .and _ _ => by simp

theorem IsOperand.ne_nil : ∀ {ts : List Token} {o : Operand}, IsOperand ts o → ts ≠ []
  | _, _, .condition hc => by cases hc <;> simp
  | _, _, .group _ => by simp

end

/-- The tokens of a filter lead the parser to its end, if the limits are wide enough. -/
theorem IsFilter.runs {m : Limits} {f : Filter} {ls : List Lexeme}
    (h : IsFilter (ls.map Lexeme.token) f) (depth : f.depth ≤ m.depth)
    (conditions : f.conditions.length ≤ m.conditions) :
    ∃ s o, Runs m .initial ls s ∧ s.behind? = some o ∧ s.outer = [] ∧ s.level.filter o = f := by
  obtain ⟨s, o, hrun, hbehind, hfilter⟩ :=
    runs_filter (m := m) h (s := .initial) rfl rfl (by simpa [State.initial] using depth)
      (by simpa [State.initial] using conditions) rfl
  exact ⟨s, o, hrun, hbehind.operand, hbehind.outer, hfilter⟩

/-- No list of tokens stands for two filters. -/
theorem IsFilter.unique {ts : List Token} {f g : Filter} (hf : IsFilter ts f) (hg : IsFilter ts g) :
    f = g := by
  obtain ⟨ls, rfl⟩ : ∃ ls : List Lexeme, ls.map Lexeme.token = ts :=
    ⟨ts.map fun t => ⟨t, 0⟩, by simp [Function.comp_def]⟩
  obtain ⟨s, o, hs, ho, -, rfl⟩ := hf.runs (m := ⟨f.depth, f.conditions.length⟩) le_rfl le_rfl
  obtain ⟨t, p, ht, hp, -, rfl⟩ := hg.runs (m := ⟨g.depth, g.conditions.length⟩) le_rfl le_rfl
  obtain rfl := hs.unique ht
  obtain rfl := Option.some.inj (ho.symm.trans hp)
  rfl

end TagQuery.Grammar
