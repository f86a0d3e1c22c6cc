import TagQuery.Proofs.Json.Depth
import TagQuery.Proofs.Tree.Wire

/-!
# Trees that are written again

A tree that has been read, from an object or an array, with whatever keys nobody asks for, is written as
an object of its fields.  The brackets of that text are nested no deeper than a reader may go, and it is
read as the same tree, in any layout, if its numbers are read back:

    Readable levels t → t.toJson.nesting ≤ levels                                 (Readable.nesting_le)
    ofText text = .ok t → (t.toJson.NumbersReadBack → ofText (t.text layout) = .ok t)
      ∧ Json.textNesting (t.text layout) ≤ Json.maxNesting                  (decoding_undoes_encoding)
-/

namespace TagQuery.Tree

variable {levels : Nat} {t : Tree}

/-- The object of a node is nested one deeper than the values of its fields. -/
theorem nesting_toJson_le {n : Nat} (h : ∀ e ∈ t.entries, e.2.toJson.nesting ≤ n) :
    t.toJson.nesting ≤ n + 1 := by
  rw [toJson_eq, Json.nesting]
  apply Nat.succ_le_succ
  apply Json.nestingMembers_le
  intro m hm
  obtain ⟨e, he, rfl⟩ := List.mem_map.1 hm
  exact h e he

/-- What a reader gives is written with brackets nested no deeper than the reader may go. -/
theorem Readable.nesting_le (h : Readable levels t) : t.toJson.nesting ≤ levels := by
  induction h with
  | @node levels label elements own room inside ih =>
    apply nesting_toJson_le
    rintro ⟨f, x⟩ he
    have hget := get?_of_mem_entries he
    cases fits_get? hget with
    | string | number | boolean => exact Nat.zero_le levels
    | any v =>
      have hvalue : v ∈ label.value := by simpa [get?] using hget
      exact (own.value v hvalue).2.nesting_le
    | @elements trees some =>
      obtain rfl : elements = trees := by
        simpa [get?] using (Option.ite_none_left_eq_some.1 hget).2
      have hroom := room some
      have hitems : Json.nestingItems (elements.map toJson) ≤ levels - 1 := by
        apply Json.nestingItems_le
        intro v hv
        obtain ⟨u, hu, rfl⟩ := List.mem_map.1 hv
        exact ih u hu
      show Json.nestingItems (elements.map toJson) + 1 ≤ levels
      omega

/-- **Writing and reading again what has been read changes nothing**, in any layout, if the numbers that
are written are read back; and the text is nested no deeper than a reader may go. -/
theorem decoding_undoes_encoding {text : String} (h : ofText text = .ok t) :
    ∀ layout : Json.Layout, (t.toJson.NumbersReadBack → ofText (t.text layout) = .ok t)
      ∧ Json.textNesting (t.text layout) ≤ Json.maxNesting := by
  intro layout
  have hreadable := readable_of_ofText h
  refine ⟨fun back => (ofText_text_iff back).2 hreadable, ?_⟩
  rw [Tree.text, Json.textNesting_text]
  exact hreadable.nesting_le

/-! ## A text that no sender writes -/

/-- A node as an array of its first fields, with a leaf that has an origin nobody knows, a key that
nobody asks for with a number that nobody can hold, and a value of its own with members in no order. -/
def unusualText : String :=
  "[\"EXPRESSION\", \"AND\", [\x7b\"name\": \"a\", \"entity\": \"NOWHERE\", \"operator\": null,
    \"x\": [[1e999]], \"value\": \x7b\"b\": -0.0, \"a\": [\"\\ud83d\\ude00\\u0001\"]\x7d\x7d], null]"

/-- The tree that it stands for. -/
def unusualTree : Tree :=
  .group (.known .and) [⟨{ name := some "a", entity := some (.other "NOWHERE"), value := some (.object
    [("a", .array [.string (String.ofList [Char.ofNat 0x1f600, Char.ofNat 1])]),
      ("b", .number (.binary (.zero true)))]) }, []⟩]

/-- It is written in another way, and read as the same tree. -/
theorem decoding_undoes_encoding_unusual :
    ofText unusualText = .ok unusualTree ∧ unusualTree.text .compact ≠ unusualText
      ∧ unusualTree.toJson.NumbersReadBack
        ∧ ∀ layout : Json.Layout, ofText (unusualTree.text layout) = .ok unusualTree
        ∧ Json.textNesting (unusualTree.text layout) ≤ Json.maxNesting := by
  have h : ofText unusualText = .ok unusualTree := by decide +kernel
  have hother : unusualTree.text .compact ≠ unusualText := by decide +kernel
  have hback : unusualTree.toJson.NumbersReadBack := by decide +kernel
  refine ⟨h, hother, hback, fun layout => ?_⟩
  obtain ⟨hread, hnesting⟩ := decoding_undoes_encoding h layout
  exact ⟨hread hback, hnesting⟩

end TagQuery.Tree
