import TagQuery.Proofs.Tree.FixedPoints
import TagQuery.Proofs.Tree.ReadBack

/-!
# Texts that tell filters apart

What a tree is read as has a plain name in each condition, so that its text is scanned into the tokens
of just that filter.  The scanner knows no limits: it does not matter how deep brackets are nested or
how many conditions there are, and a filter whose text the parser would refuse is still the only one
with that text. A filter in canonical form is known by its tree as well, so text and tree say the same:

    t.toFilter = .ok f → u.toFilter = .ok g →
      (f.text = g.text ↔ f = g) ∧ (f.text = g.text ↔ f.toTree = g.toTree)      (canonical_text_identifies)
-/

namespace TagQuery

open TagQuery.Tree

section

variable {t u : Tree} {f g : Filter}

/-- What trees are read as is known by its text. -/
theorem toFilter_text_inj (hf : t.toFilter = .ok f) (hg : u.toFilter = .ok g) (h : f.text = g.text) :
    f = g :=
  Filter.text_inj (isPlain_toFilter hf) (isPlain_toFilter hg) h

/-- What trees are read as is known by the tree that it is sent as. -/
theorem toFilter_toTree_inj (hf : t.toFilter = .ok f) (hg : u.toFilter = .ok g)
    (h : f.toTree = g.toTree) : f = g :=
  (isCanonical_toFilter hf).toTree_inj (isCanonical_toFilter hg) h

/-- **The canonical text says which filter is stored.**  Of what trees are read as, no two have one
text, and those with one text are those that are sent as one tree. -/
theorem canonical_text_identifies (hf : t.toFilter = .ok f) (hg : u.toFilter = .ok g) :
    (f.text = g.text ↔ f = g) ∧ (f.text = g.text ↔ f.toTree = g.toTree) := by
  have htext : f.text = g.text ↔ f = g := ⟨toFilter_text_inj hf hg, congrArg Filter.text⟩
  refine ⟨htext, htext.trans ?_⟩
  constructor
  · exact congrArg Filter.toTree
  · exact toFilter_toTree_inj hf hg

end

/-! ## A string that looks like a condition -/

/-- A comparison of the destination's tag `name`. -/
def equalsText (name text : String) : Condition :=
  .compare ⟨name, none, some .destination⟩ .equals (.string text)

/-- An `AND` of two conditions, the first with a string that could be the end of it and another
condition. -/
def quotedCondition : Tree :=
  .group (.known .and) [(equalsText "a" "x' AND b@dest EQUALS 'y").toTree, (equalsText "c" "z").toTree]

/-- An `AND` of the three conditions that the string pretends. -/
def threeConditions : Tree :=
  .group (.known .and)
    [(equalsText "a" "x").toTree, (equalsText "b" "y").toTree, (equalsText "c" "z").toTree]

/-- The two are shown as different texts. -/
theorem canonical_text_identifies_quoted :
    ∃ f g, quotedCondition.toFilter = .ok f ∧ threeConditions.toFilter = .ok g
      ∧ f ≠ g ∧ f.text ≠ g.text ∧ f.toTree ≠ g.toTree := by
  have hf : quotedCondition.toFilter = .ok (.ofOperand (.group (.single
      (.and (.condition (equalsText "a" "x' AND b@dest EQUALS 'y"))
        (.single (.condition (equalsText "c" "z"))))))) := by decide +kernel
  have hg : threeConditions.toFilter = .ok (.ofOperand (.group (.single
      (.and (.condition (equalsText "a" "x")) (.and (.condition (equalsText "b" "y"))
        (.single (.condition (equalsText "c" "z")))))))) := by decide +kernel
  obtain ⟨htext, htree⟩ := canonical_text_identifies hf hg
  refine ⟨_, _, hf, hg, by decide, ?_, ?_⟩
  · rw [Ne, htext]
    decide
  · rw [Ne, ← htree, htext]
    decide

end TagQuery
