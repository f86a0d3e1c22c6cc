import TagQuery.Proofs.Filter.Steps

/-!
# The limits of a run

What the parser has read keeps to the limits that its steps keep to, and the parser's counter is the number
of the conditions that it holds:

    Within m s → Step m s l s' → Within m s'                               (Within.step)
-/

namespace TagQuery.Parser

/-! ## Levels -/

namespace Level

/-- What has been read of a level has brackets nested `n` deep at most. -/
def DepthLe (l : Level) (n : Nat) : Prop :=
  (∀ c ∈ l.chains, c.depth ≤ n) ∧ ∀ o ∈ l.operands, o.depth ≤ n

/-- How many conditions have been read of a level. -/
def count (l : Level) : Nat :=
  (l.chains.flatMap Chain.conditions).length + (l.operands.flatMap Operand.conditions).length

theorem depth_withChain {l : Level} {c : Chain} {n : Nat} (h : ∀ o ∈ l.operands, o.depth ≤ n)
    (hc : c.depth ≤ n) : (l.withChain c).depth ≤ n := by
  unfold withChain
  generalize l.operands = os at h
  induction os generalizing c with
  | nil => exact hc
  | cons o os ih =>
    simp only [List.forall_mem_cons] at h
    exact ih (Nat.max_le.2 ⟨h.1, hc⟩) h.2

theorem depth_withFilter {l : Level} {f : Filter} {n : Nat} (h : ∀ c ∈ l.chains, c.depth ≤ n)
    (hf : f.depth ≤ n) : (l.withFilter f).depth ≤ n := by
  unfold withFilter
  generalize l.chains = cs at h
  induction cs generalizing f with
  | nil => exact hf
  | cons c cs ih =>
    simp only [List.forall_mem_cons] at h
    exact ih (Nat.max_le.2 ⟨h.1, hf⟩) h.2

theorem depth_chain {l : Level} {o : Operand} {n : Nat} (h : l.DepthLe n) (ho : o.depth ≤ n) :
    (l.chain o).depth ≤ n :=
  depth_withChain h.2 ho

theorem depth_filter {l : Level} {o : Operand} {n : Nat} (h : l.DepthLe n) (ho : o.depth ≤ n) :
    (l.filter o).depth ≤ n :=
  depth_withFilter h.1 (depth_chain h ho)

theorem count_chain (l : Level) (o : Operand) :
    (l.chain o).conditions.length
      = (l.operands.flatMap Operand.conditions).length + o.conditions.length := by
  have step : ∀ (os : List Operand) (c : Chain),
      (os.foldl (fun rest o => Chain.and o rest) c).conditions.length
        = (os.flatMap Operand.conditions).length + c.conditions.length := by
    intro os
    induction os with
    | nil => intro c; simp
    | cons o os ih =>
      intro c
      rw [List.foldl_cons, ih, List.flatMap_cons, Chain.conditions, List.length_append,
        List.length_append]
      omega
  exact step l.operands (.single o)

theorem count_filter (l : Level) (o : Operand) :
    (l.filter o).conditions.length = l.count + o.conditions.length := by
  have step : ∀ (cs : List Chain) (f : Filter),
      (cs.foldl (fun rest c => Filter.or c rest) f).conditions.length
        = (cs.flatMap Chain.conditions).length + f.conditions.length := by
    intro cs
    induction cs with
    | nil => intro f; simp
    | cons c cs ih =>
      intro f
      rw [List.foldl_cons, ih, List.flatMap_cons, Filter.conditions, List.length_append,
        List.length_append]
      omega
  rw [filter_eq, withFilter, step, Filter.conditions, count_chain, count]
  omega

/-- The level with an operand more. -/
theorem count_and (l : Level) (o : Operand) :
    count ⟨l.chains, o :: l.operands⟩ = l.count + o.conditions.length := by
  simp only [count, List.flatMap_cons, List.length_append]
  omega

/-- The level with its chain finished. -/
theorem count_or (l : Level) (o : Operand) :
    count ⟨l.chain o :: l.chains, []⟩ = l.count + o.conditions.length := by
  simp only [count, List.flatMap_cons, List.length_append, count_chain, List.flatMap_nil,
    List.length_nil]
  omega

end Level

/-! ## States -/

/-- The nesting of the operand that a phase has finished. -/
def Phase.depth : Phase → Nat
  | .after o => o.depth
  | _ => 0

/-- How many conditions a phase holds. -/
def Phase.count : Phase → Nat
  | .operand => 0
  | .after o => o.conditions.length
  | _ => 1

/-- The levels around a place, each as deep as its own place allows. -/
def OuterDepthLe (n : Nat) : List (Nat × Level) → Prop
  | [] => True
  | (_, l) :: outer => l.DepthLe (n - outer.length) ∧ OuterDepthLe n outer

/-- How many conditions have been read of the levels around a place. -/
def outerCount : List (Nat × Level) → Nat
  | [] => 0
  | (_, l) :: outer => l.count + outerCount outer

/-- The state keeps to the limits, and counts the conditions that it holds. -/
structure Within (m : Limits) (s : State) : Prop where
  length : s.outer.length ≤ m.depth
  outer : OuterDepthLe m.depth s.outer
  level : s.level.DepthLe (m.depth - s.outer.length)
  phase : s.phase.depth ≤ m.depth - s.outer.length
  conditions : s.conditions ≤ m.conditions
  count : s.conditions = outerCount s.outer + s.level.count + s.phase.count

theorem depthLe_empty (n : Nat) : Level.empty.DepthLe n := by
  simp [Level.DepthLe, Level.empty]

theorem within_initial (m : Limits) : Within m .initial where
  length := Nat.zero_le _
  outer := trivial
  level := depthLe_empty _
  phase := Nat.zero_le _
  conditions := Nat.zero_le _
  count := rfl

theorem phase_of_behind {s : State} {o : Operand} (behind : s.behind? = some o) :
    s.phase.depth = o.depth ∧ s.phase.count = o.conditions.length := by
  unfold State.behind? at behind
  split at behind
  · next hphase =>
    obtain rfl := Option.some.inj behind
    rw [hphase]
    exact ⟨rfl, rfl⟩
  · next hphase =>
    obtain rfl := Option.some.inj behind
    rw [hphase]
    exact ⟨rfl, rfl⟩
  · simp at behind

/-! ## Steps -/

/-- A phase without brackets that holds as many conditions. -/
theorem Within.withPhase {m : Limits} {s : State} {p : Phase} (h : Within m s) (depth : p.depth = 0)
    (count : p.count = s.phase.count) : Within m { s with phase := p } := by
  refine ⟨h.length, h.outer, h.level, ?_, h.conditions, ?_⟩
  · show p.depth ≤ _
    omega
  · show _ = outerCount s.outer + s.level.count + p.count
    rw [count]
    exact h.count

/-- A token leads from a state that keeps to the limits to another one. -/
theorem Within.step {m : Limits} {s s' : State} {l : Lexeme} (h : Within m s)
    (hs : Step m s l s') : Within m s' := by
  cases hs with
  | openBracket phase token fits =>
    refine ⟨fits, ⟨h.level, h.outer⟩, depthLe_empty _, ?_, h.conditions, ?_⟩
    · simp [phase, Phase.depth]
    · have hzero : s.phase.count = 0 := by rw [phase]; rfl
      have hcount := h.count
      show s.conditions = (s.level.count + outerCount s.outer) + 0 + s.phase.count
      omega
  | name phase token fits =>
    refine ⟨h.length, h.outer, h.level, Nat.zero_le _, fits, ?_⟩
    have hzero : s.phase.count = 0 := by rw [phase]; rfl
    have hcount := h.count
    show s.conditions + 1 = outerCount s.outer + s.level.count + 1
    omega
  | colon phase => exact h.withPhase rfl (by rw [phase]; rfl)
  | key phase => exact h.withPhase rfl (by rw [phase]; rfl)
  | «at» phase => exact h.withPhase rfl (by rw [phase]; rfl)
  | origin phase => exact h.withPhase rfl (by rw [phase]; rfl)
  | comparison phase => exact h.withPhase rfl (by rw [phase]; rfl)
  | test phase => exact h.withPhase rfl (by rw [phase]; rfl)
  | value phase => exact h.withPhase rfl (by rw [phase]; rfl)
  | @and o behind token =>
    obtain ⟨hdepth, hnumber⟩ := phase_of_behind behind
    have hlast : o.depth ≤ m.depth - s.outer.length := hdepth ▸ h.phase
    refine ⟨h.length, h.outer, ⟨h.level.1, ?_⟩, Nat.zero_le _, h.conditions, ?_⟩
    · exact List.forall_mem_cons.2 ⟨hlast, h.level.2⟩
    · have hcount := h.count
      show s.conditions = outerCount s.outer + Level.count ⟨s.level.chains, _ :: s.level.operands⟩ + 0
      rw [Level.count_and]
      omega
  | @or o behind token =>
    obtain ⟨hdepth, hnumber⟩ := phase_of_behind behind
    have hlast : o.depth ≤ m.depth - s.outer.length := hdepth ▸ h.phase
    refine ⟨h.length, h.outer, ⟨?_, by simp⟩, Nat.zero_le _, h.conditions, ?_⟩
    · exact List.forall_mem_cons.2 ⟨Level.depth_chain h.level hlast, h.level.1⟩
    · have hcount := h.count
      show s.conditions = outerCount s.outer + Level.count ⟨s.level.chain o :: s.level.chains, []⟩ + 0
      rw [Level.count_or]
      omega
  | @closeBracket o position level outer behind token bracket =>
    obtain ⟨hdepth, hnumber⟩ := phase_of_behind behind
    obtain ⟨hlength, houter, hlevel, hphase, hconditions, hcount⟩ := h
    rw [bracket] at hlength houter hlevel hphase hcount
    rw [List.length_cons] at hlength hlevel hphase
    have hfilter := Level.depth_filter hlevel (hdepth ▸ hphase)
    refine ⟨Nat.le_of_succ_le hlength, houter.2, houter.1, ?_, hconditions, ?_⟩
    · show (s.level.filter o).depth + 1 ≤ m.depth - outer.length
      omega
    · change s.conditions = (level.count + outerCount outer) + s.level.count + s.phase.count at hcount
      show s.conditions = outerCount outer + level.count + (s.level.filter o).conditions.length
      rw [Level.count_filter]
      omega

theorem Within.run {m : Limits} {s s' : State} {ls : List Lexeme} (h : Within m s)
    (hr : Runs m s ls s') : Within m s' := by
  induction hr with
  | nil => exact h
  | cons hs _ ih => exact ih (h.step hs)

/-- At the end of a text, the filter that the parser gives keeps to the limits. -/
theorem Within.filter {m : Limits} {s : State} {o : Operand} (h : Within m s)
    (behind : s.behind? = some o) (outer : s.outer = []) :
    (s.level.filter o).depth ≤ m.depth ∧ (s.level.filter o).conditions.length ≤ m.conditions := by
  obtain ⟨hdepth, hnumber⟩ := phase_of_behind behind
  obtain ⟨-, -, hlevel, hphase, hconditions, hcount⟩ := h
  rw [outer] at hlevel hphase hcount
  refine ⟨Level.depth_filter hlevel (hdepth ▸ hphase), ?_⟩
  rw [Level.count_filter]
  simp only [outerCount] at hcount
  omega

end TagQuery.Parser
