import TagQuery.Proofs.Filter.Completeness
import TagQuery.Proofs.Filter.Limits
import TagQuery.Proofs.Filter.Soundness

/-!
# The parser and the grammar

The parser reads a filter from just the tokens that the filter is derived from, as long as the filter keeps
to the limits:

    ofLexemes size ls = .ok f ↔
      IsFilter (ls.map Lexeme.token) f ∧ f.depth ≤ maxDepth ∧ f.conditions.length ≤ maxConditions
                                                                        (ofLexemes_ok_iff)
-/

namespace TagQuery.Filter

open Grammar TagQuery.Parser

/-- The parser reads just the filters that the tokens stand for and that keep to the limits. -/
theorem ofLexemes_ok_iff {size : Nat} {ls : List Lexeme} {f : Filter} :
    ofLexemes size ls = .ok f ↔
      IsFilter (ls.map Lexeme.token) f ∧ f.depth ≤ maxDepth
        ∧ f.conditions.length ≤ maxConditions := by
  constructor
  · intro h
    unfold ofLexemes at h
    split at h
    · simp at h
    · obtain ⟨s, hrun, hfinish⟩ := Except.bind_ok_iff.1 h
      rw [run_ok_iff] at hrun
      obtain ⟨o, hbehind, houter, rfl⟩ := finish_ok_iff.1 hfinish
      exact ⟨(reads_initial.run hrun).isFilter hbehind houter,
        ((within_initial .standard).run hrun).filter hbehind houter⟩
  · rintro ⟨h, depth, conditions⟩
    obtain ⟨s, o, hrun, hbehind, houter, hfilter⟩ := h.runs (m := .standard) depth conditions
    have hne : ls ≠ [] := fun hnil => h.ne_nil (by rw [hnil]; rfl)
    rw [ofLexemes, if_neg (by simpa using hne), run_ok_iff.2 hrun]
    exact finish_ok_iff.2 ⟨o, hbehind, houter, hfilter⟩

/-- A text stands for a filter if its tokens do and the filter keeps to the limits. -/
theorem parse_ok_iff {text : String} {f : Filter} :
    parse text = .ok f ↔
      ∃ ls, Lexeme.read text = .ok ls ∧ IsFilter (ls.map Lexeme.token) f ∧ f.depth ≤ maxDepth
        ∧ f.conditions.length ≤ maxConditions := by
  rw [parse, Except.bind_ok_iff]
  simp only [ofLexemes_ok_iff]

end TagQuery.Filter
