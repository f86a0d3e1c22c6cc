import TagQuery.Proofs.Json.Values

/-!
# How deep a text is nested

Whoever goes through a text once, counts the brackets that are open and takes those in strings for what
they are, sees how deep the value is nested that the text was printed from, in any layout; and what a
reader gives is nested no deeper than it may go:

    textNesting (v.text layout) = v.nesting                                          (textNesting_text)
    Readable levels v → v.nesting ≤ levels                                        (Readable.nesting_le)
-/

namespace TagQuery.Json

open Text

/-! ## Nesting of values and of texts -/

mutual

/-- How many arrays and objects are around the deepest value, itself included. -/
def nesting : Json → Nat
  | .array items => nestingItems items + 1
  | .object members => nestingMembers members + 1
  | _ => 0

def nestingItems : List Json → Nat
  | [] => 0
  | v :: vs => max v.nesting (nestingItems vs)

def nestingMembers : List (String × Json) → Nat
  | [] => 0
  | (_, v) :: ms => max v.nesting (nestingMembers ms)

end

/-- Where in a text a character stands. -/
inductive Region where
  | outside
  | string
  /-- Behind a backslash in a string. -/
  | escape

/-- How many brackets are open at most, in a text in front of which `n` have been opened. -/
def deepest : Region → Nat → List Char → Nat
  | _, n, [] => n
  | .outside, n, c :: cs =>
    if c = '"' then deepest .string n cs
    else if c = '[' ∨ c = '\x7b' then deepest .outside (n + 1) cs
    else if c = ']' ∨ c = '\x7d' then max n (deepest .outside (n - 1) cs)
    else deepest .outside n cs
  | .string, n, c :: cs =>
    if c = '"' then deepest .outside n cs
    else if c = '\\' then deepest .escape n cs
    else deepest .string n cs
  | .escape, n, _ :: cs => deepest .string n cs

/-- How deep the arrays and objects of a text are nested. -/
def textNesting (text : String) : Nat :=
  deepest .outside 0 text.toList

theorem le_deepest (r : Region) (n : Nat) (cs : List Char) : n ≤ deepest r n cs := by
  induction cs generalizing r n with
  | nil => cases r <;> exact Nat.le_refl n
  | cons c cs ih =>
    cases r with
    | outside =>
      rw [deepest]
      split
      · exact ih _ n
      · split
        · exact Nat.le_trans (Nat.le_succ n) (ih _ (n + 1))
        · split
          · exact Nat.le_max_left _ _
          · exact ih _ n
    | string =>
      rw [deepest]
      split
      · exact ih _ n
      · split <;> exact ih _ n
    | escape => exact ih _ n

/-! ## Pieces of a text -/

/-- The piece goes `depth` brackets deep, and closes all that it opens. -/
def Nested (depth : Nat) (cs : List Char) : Prop :=
  ∀ n rest, deepest .outside n (cs ++ rest) = max (n + depth) (deepest .outside n rest)

section

variable {cs ds : List Char} {j k : Nat}

theorem nested_nil : Nested 0 [] := by
  intro n rest
  exact (Nat.max_eq_right (le_deepest _ n rest)).symm

theorem Nested.append (hcs : Nested j cs) (hds : Nested k ds) : Nested (max j k) (cs ++ ds) := by
  intro n rest
  rw [List.append_assoc, hcs, hds]
  omega

/-- A piece between brackets. -/
theorem Nested.brackets {b e : Char} (h : Nested k cs)
    (pair : b = '[' ∧ e = ']' ∨ b = '\x7b' ∧ e = '\x7d') : Nested (k + 1) (b :: (cs ++ [e])) := by
  intro n rest
  have hopen : ∀ cs, deepest .outside n (b :: cs) = deepest .outside (n + 1) cs := by
    intro cs
    rcases pair with ⟨rfl, -⟩ | ⟨rfl, -⟩ <;> simp [deepest]
  have hclose : deepest .outside (n + 1) (e :: rest) = max (n + 1) (deepest .outside n rest) := by
    rcases pair with ⟨-, rfl⟩ | ⟨-, rfl⟩ <;> simp [deepest]
  rw [List.cons_append, hopen, List.append_assoc, h, List.singleton_append, hclose]
  omega

/-- The character is no bracket, and no string starts with it. -/
def isFlat (c : Char) : Bool :=
  !(['"', '[', ']', '\x7b', '\x7d'].contains c)

theorem deepest_flat {c : Char} (h : isFlat c = true) (n : Nat) (cs : List Char) :
    deepest .outside n (c :: cs) = deepest .outside n cs := by
  simp only [isFlat, List.contains_cons, Bool.not_eq_true', Bool.or_eq_false_iff,
    beq_eq_false_iff_ne] at h
  simp [deepest, h]

theorem nested_flat (h : cs.all isFlat = true) : Nested 0 cs := by
  induction cs with
  | nil => exact nested_nil
  | cons c cs ih =>
    obtain ⟨hc, hcs⟩ := Bool.and_eq_true_iff.1 h
    intro n rest
    have hstep := deepest_flat hc n (cs ++ rest)
    rw [List.cons_append, hstep, ih hcs]

theorem nested_spaces (h : Spaces cs) : Nested 0 cs := by
  refine nested_flat (List.all_eq_true.2 fun c hc => ?_)
  have hspace := h c hc
  simp only [Cursor.isSpace, Bool.or_eq_true, beq_iff_eq] at hspace
  rcases hspace with ((rfl | rfl) | rfl) | rfl <;> rfl

/-! ## Numbers and strings -/

theorem isFlat_of_isDigit {c : Char} (h : isDigit c = true) : isFlat c = true := by
  have all : ['0', '1', '2', '3', '4', '5', '6', '7', '8', '9'].all isFlat = true := by decide
  exact List.all_eq_true.1 all c (mem_of_isDigit h)

theorem nested_number (n : Number) : Nested 0 n.chars := by
  refine nested_flat (List.all_eq_true.2 fun c hc => ?_)
  have all : ['-', '+', '.', 'e', 'E'].all isFlat = true := by decide
  rcases n.mem_chars c hc with hdigit | hmark
  · exact isFlat_of_isDigit hdigit
  · exact List.all_eq_true.1 all c hmark

/-- The string does not end at the character, and nothing is escaped by it. -/
def isInner (c : Char) : Bool :=
  c != '"' && c != '\\'

theorem deepest_inner {n : Nat} {rest : List Char} (h : cs.all isInner = true) :
    deepest .string n (cs ++ rest) = deepest .string n rest := by
  induction cs with
  | nil => rfl
  | cons c cs ih =>
    simp only [List.all_cons, isInner, Bool.and_eq_true, bne_iff_ne] at h
    obtain ⟨⟨hquote, hslash⟩, hcs⟩ := h
    rw [List.cons_append, deepest, if_neg hquote, if_neg hslash, ih hcs]

theorem isInner_hexDigits : ∀ n < 32, (hexDigits n).all isInner = true := by
  decide

/-- A character as it stands in a string is passed over. -/
theorem deepest_escapedChar (c : Char) (n : Nat) (rest : List Char) :
    deepest .string n (escapedChar c ++ rest) = deepest .string n rest := by
  unfold escapedChar
  iterate 6
    split
    · simp [deepest]
  next hself _ _ _ _ _ =>
    obtain ⟨hquote, hslash⟩ := not_or.1 hself
    split
    · next hcontrol =>
      show deepest .string n (hexDigits c.toNat ++ rest) = _
      exact deepest_inner (isInner_hexDigits c.toNat hcontrol)
    · exact deepest_inner (by simp [isInner, hquote, hslash])

theorem nested_string (cs : List Char) : Nested 0 (stringChars cs) := by
  intro n rest
  have hinside : deepest .string n (cs.flatMap escapedChar ++ '"' :: rest) = deepest .outside n rest := by
    induction cs with
    | nil => simp [deepest]
    | cons c cs ih => rw [List.flatMap_cons, List.append_assoc, deepest_escapedChar, ih]
  have hall : deepest .outside n (stringChars cs ++ rest) = deepest .outside n rest := by
    simp [stringChars, deepest, hinside]
  rw [hall]
  exact (Nat.max_eq_right (le_deepest _ n rest)).symm

end

/-! ## Values -/

section

variable {layout : Layout}

/-- What stands in front of an item or a closing bracket. -/
theorem nested_lineBreak (layout : Layout) (level : Nat) : Nested 0 (layout.lineBreak level) :=
  nested_spaces (spaces_lineBreak layout level)

theorem nested_colon (layout : Layout) : Nested 0 layout.colon := by
  cases layout <;> exact nested_flat (by decide)

theorem nested_comma : Nested 0 [','] :=
  nested_flat (by decide)

mutual

theorem nested_chars : ∀ (v : Json) (level : Nat), Nested v.nesting (v.chars layout level)
  | .null, _ => @nested_flat "null".toList (by decide)
  | .boolean true, _ => @nested_flat "true".toList (by decide)
  | .boolean false, _ => @nested_flat "false".toList (by decide)
  | .number n, _ => nested_number n
  | .string s, _ => nested_string s.toList
  | .array [], _ => nested_nil.brackets (.inl ⟨rfl, rfl⟩)
  | .array (x :: xs), level => by
    have hinside := (nested_lineBreak layout (level + 1)).append ((nested_chars x (level + 1)).append
      ((nested_itemChars xs (level + 1)).append (nested_lineBreak layout level)))
    have h := hinside.brackets (.inl ⟨rfl, rfl⟩)
    simpa [nesting, nestingItems, chars] using h
  | .object [], _ => nested_nil.brackets (.inr ⟨rfl, rfl⟩)
  | .object ((k, v) :: ms), level => by
    have hmember := (nested_string k.toList).append
      ((nested_colon layout).append (nested_chars v (level + 1)))
    have hinside := (nested_lineBreak layout (level + 1)).append (hmember.append
      ((nested_memberChars ms (level + 1)).append (nested_lineBreak layout level)))
    have h := hinside.brackets (.inr ⟨rfl, rfl⟩)
    simpa [nesting, nestingMembers, chars] using h

theorem nested_itemChars : ∀ (xs : List Json) (level : Nat),
    Nested (nestingItems xs) (itemChars layout level xs)
  | [], _ => nested_nil
  | x :: xs, level => by
    have h := nested_comma.append ((nested_lineBreak layout level).append
      ((nested_chars x level).append (nested_itemChars xs level)))
    simpa [nestingItems, itemChars] using h

theorem nested_memberChars : ∀ (ms : List (String × Json)) (level : Nat),
    Nested (nestingMembers ms) (memberChars layout level ms)
  | [], _ => nested_nil
  | (k, v) :: ms, level => by
    have hmember := (nested_string k.toList).append
      ((nested_colon layout).append (nested_chars v level))
    have h := nested_comma.append ((nested_lineBreak layout level).append
      (hmember.append (nested_memberChars ms level)))
    simpa [nestingMembers, memberChars] using h

end

/-- **A text is nested as deep as the value that it is printed from**, in any layout. -/
theorem textNesting_text (layout : Layout) (v : Json) : textNesting (v.text layout) = v.nesting := by
  have h : Nested v.nesting (v.chars layout 0) := nested_chars v 0
  simpa [textNesting, text, deepest] using h 0 []

end

/-! ## Readable values -/

theorem nestingItems_le {xs : List Json} {n : Nat} (h : ∀ v ∈ xs, v.nesting ≤ n) :
    nestingItems xs ≤ n := by
  induction xs with
  | nil => exact Nat.zero_le n
  | cons v vs ih =>
    obtain ⟨hv, hvs⟩ := List.forall_mem_cons.1 h
    exact Nat.max_le.2 ⟨hv, ih hvs⟩

theorem nestingMembers_le {ms : List (String × Json)} {n : Nat} (h : ∀ m ∈ ms, m.2.nesting ≤ n) :
    nestingMembers ms ≤ n := by
  induction ms with
  | nil => exact Nat.zero_le n
  | cons m ms ih =>
    obtain ⟨hm, hms⟩ := List.forall_mem_cons.1 h
    exact Nat.max_le.2 ⟨hm, ih hms⟩

theorem Scalar.nesting_toJson (s : Scalar) : s.toJson.nesting = 0 := by
  cases s <;> rfl

/-- What a reader gives is nested no deeper than it may go. -/
theorem Readable.nesting_le {levels : Nat} {v : Json} (h : Readable levels v) : v.nesting ≤ levels := by
  induction h with
  | scalar s => exact s.nesting_toJson ▸ Nat.zero_le _
  | array inside ih => exact Nat.succ_le_succ (nestingItems_le ih)
  | object sorted inside ih => exact Nat.succ_le_succ (nestingMembers_le ih)

end TagQuery.Json
