import TagQuery.Command.Table
import TagQuery.Proofs.Filter.RoundTrip

/-!
# The rows of the table

A row shows its condition in five columns: the name from character 0 on, the key from 31, the origin from
48, the operator from 55 and the value from 78 to the end (`Shows`).  This is so of every condition,
whatever characters it has (`shows_row`).

The table of a filter is its header and its rows, with a line break behind each.  Strings and keys are
written as they are, so a row is one line only if it shows no line break:

    parse text = .ok f →
      (IsTable (ofFilter .plain f).toList f.conditions ↔ ∀ c ∈ f.conditions, ShowsNoBreak c)
                                                                                   (table_of_parsed)
-/

namespace TagQuery

/-! ## Texts that end without a blank -/

/-- No blank belongs to a word. -/
theorem not_isBlank_of_isWord {cs : List Char} (h : isWord cs = true) :
    ∀ c ∈ cs, Text.isBlank c = false := by
  cases cs with
  | nil => simp [isWord] at h
  | cons c cs =>
    simp only [isWord, Bool.and_eq_true, Bool.not_eq_true', List.all_eq_true] at h
    obtain ⟨⟨-, hc⟩, hcs⟩ := h
    refine List.forall_mem_cons.2 ⟨hc, fun d hd => ?_⟩
    by_contra hblank
    have hends := Text.continuesWord_of_isBlank (Bool.not_eq_false _ ▸ hblank)
    simp [hcs d hd] at hends

namespace Text

variable {cs blanks : List Char}

/-- The blanks behind a text that ends without one are trimmed, and no more. -/
theorem trimEnd_append (ends : StopsAt isBlank cs.reverse) (h : ∀ c ∈ blanks, isBlank c = true) :
    trimEnd (cs ++ blanks) = cs := by
  have hrev : ∀ c ∈ blanks.reverse, isBlank c = true := fun c hc => h c (List.mem_reverse.1 hc)
  rw [trimEnd, trimStart, List.reverse_append, dropWhile_append_stop hrev ends, List.reverse_reverse]

theorem stopsAt_reverse (h : ∀ c ∈ cs, isBlank c = false) : StopsAt isBlank cs.reverse := by
  intro c hc
  exact h c (List.mem_reverse.1 (List.mem_of_mem_head? hc))

/-- How a text ends does not depend on what stands before it. -/
theorem stopsAt_reverse_append (before : List Char) (hne : cs ≠ [])
    (ends : StopsAt isBlank cs.reverse) : StopsAt isBlank (before ++ cs).reverse := by
  intro c hc
  rw [List.head?_reverse, List.getLast?_append_of_ne_nil _ hne, ← List.head?_reverse] at hc
  exact ends c hc

end Text

/-- No blank is written in a number. -/
theorem Number.not_isBlank (n : Number) : ∀ c ∈ n.chars, Text.isBlank c = false := by
  intro c hc
  have marks : ['-', '+', '.', 'e', 'E'].all (fun d => !Text.isBlank d) = true := by decide
  rcases n.mem_chars c hc with hdigit | hmark
  · exact (Text.classes_of_isDigit hdigit).2.2
  · simpa using List.all_eq_true.1 marks c hmark

theorem not_isBlank_booleanText (b : Bool) :
    ∀ c ∈ (Text.booleanText b).toList, Text.isBlank c = false := by
  cases b <;> exact not_isBlank_of_isWord (by decide)

theorem Number.chars_ne_nil (n : Number) : n.chars ≠ [] := by
  rw [← n.chars_literal, NumberLiteral.chars_eq]
  simp [n.regular_literal.whole.1]

/-- A value is written without a blank at its end: a string ends in a quote. -/
theorem Value.stopsAt_reverse (v : Value) : Text.StopsAt Text.isBlank v.chars.reverse := by
  cases v with
  | string s =>
    rw [Value.chars, quoted, List.reverse_append]
    exact Text.stopsAt_cons (by decide)
  | number n => exact Text.stopsAt_reverse n.not_isBlank
  | boolean b => exact Text.stopsAt_reverse (not_isBlank_booleanText b)

theorem Value.chars_ne_nil (v : Value) : v.chars ≠ [] := by
  cases v with
  | string s => simp [Value.chars, quoted]
  | number n => exact n.chars_ne_nil
  | boolean b => cases b <;> decide

namespace Table

/-! ## Columns -/

/-- A text stands in the column from the character `start` up to `stop` of a line, with one blank behind it
at least and nothing else. -/
def Fills (line : List Char) (start stop : Nat) (text : List Char) : Prop :=
  text.length < stop - start
    ∧ (line.drop start).take (stop - start)
        = text ++ List.replicate (stop - start - text.length) ' '

/-- A text as a column shows it: itself if it fits, else its start and three points. -/
inductive Shortened (width : Nat) (text : List Char) : List Char → Prop where
  | whole (fits : text.length ≤ width) : Shortened width text text
  | cut (long : width < text.length) : Shortened width text (text.take (width - 3) ++ ['.', '.', '.'])

/-- A line shows a condition: each cell starts in its column, and nothing stands behind the last. -/
structure Shows (line : List Char) (c : Condition) : Prop where
  name : ∃ shown, Shortened 30 c.entity.name.toList shown ∧ Fills line 0 31 shown
  key : ∃ shown, Shortened 16 (c.entity.key.getD "").toList shown ∧ Fills line 31 48 shown
  origin : Fills line 48 55 ((c.entity.origin.map Origin.key).getD "-").toList
  comparison : ∀ v, c.value? = some v →
    Fills line 55 78 c.operator.name.toList ∧ line.drop 78 = v.chars
  test : c.value? = none → line.drop 55 = c.operator.name.toList

theorem Shortened.unique {width : Nat} {text shown other : List Char} (h : Shortened width text shown)
    (h' : Shortened width text other) : shown = other := by
  cases h with
  | whole fits =>
    cases h' with
    | whole => rfl
    | cut long => exact absurd fits (Nat.not_le.2 long)
  | cut long =>
    cases h' with
    | whole fits => exact absurd fits (Nat.not_le.2 long)
    | cut => rfl

theorem shortened_cut (width : Nat) (s : String) : Shortened width s.toList (cut width s).toList := by
  unfold Table.cut
  split
  · next long =>
    rw [String.toList_append, String.toList_ofList]
    exact .cut long
  · next fits => exact .whole (Nat.not_lt.1 fits)

/-- A text with blanks behind it up to the next column. -/
def cell (width : Nat) (text : List Char) : List Char :=
  text ++ List.replicate (width + 1 - text.length) ' '

section

variable {width start : Nat} {text : List Char}

theorem length_cell (h : text.length ≤ width) : (cell width text).length = width + 1 := by
  rw [cell, List.length_append, List.length_replicate]
  omega

theorem newline_mem_cell : '\n' ∈ cell width text ↔ '\n' ∈ text := by
  simp [cell, List.mem_replicate]

theorem toList_fill {s : String} (h : s.toList.length ≤ width) (rest : List Char) :
    (fill width s).toList ++ ' ' :: rest = cell width s.toList ++ rest := by
  have hblanks : width + 1 - s.toList.length = width - s.toList.length + 1 := by omega
  rw [fill, cell, String.toList_ofList, hblanks, List.replicate_succ']
  simp only [List.append_assoc, List.cons_append, List.nil_append]

theorem fills_cell {before : List Char} (hbefore : before.length = start) (h : text.length ≤ width)
    (after : List Char) :
    Fills (before ++ (cell width text ++ after)) start (start + width + 1) text := by
  have hwidth : start + width + 1 - start = width + 1 := by omega
  refine ⟨by omega, ?_⟩
  rw [hwidth, ← hbefore, List.drop_left, List.take_left' (length_cell h), cell]

end

/-! ## Rows -/

theorem length_name (e : Entity) : (cut entityWidth e.name).toList.length ≤ entityWidth :=
  length_cut_le (by decide) _

theorem length_key (e : Entity) : (cut keyWidth (e.key.getD "")).toList.length ≤ keyWidth :=
  length_cut_le (by decide) _

theorem length_origin (o? : Option Origin) :
    ((o?.map Origin.key).getD "-").toList.length ≤ originWidth := by
  cases o? with
  | none => decide
  | some o => cases o <;> decide

theorem length_operator (op : Operator) : op.name.toList.length ≤ operatorWidth := by
  cases op with
  | comparison op => cases op <;> decide
  | test op => cases op <;> decide

theorem originCell_plain (o? : Option Origin) :
    originCell .plain o? = (o?.map Origin.key).getD "-" := by
  cases o? <;> rfl

/-- The first three cells of the row of a condition on an entity. -/
def leading (e : Entity) : List Char :=
  cell entityWidth (cut entityWidth e.name).toList
    ++ (cell keyWidth (cut keyWidth (e.key.getD "")).toList
      ++ cell originWidth ((e.origin.map Origin.key).getD "-").toList)

theorem length_leading (e : Entity) : (leading e).length = 55 := by
  rw [leading, List.length_append, List.length_append, length_cell (length_name e),
    length_cell (length_key e), length_cell (length_origin e.origin)]
  rfl

/-- The row of a condition before its end is trimmed. -/
theorem toList_row (e : Entity) (op : Operator) (value : String) :
    (row (cut entityWidth e.name) (cut keyWidth (e.key.getD "")) (originCell .plain e.origin)
        op.name value).toList
      = leading e ++ (cell operatorWidth op.name.toList ++ value.toList) := by
  have blank : " ".toList = [' '] := rfl
  simp only [row, String.toList_append, blank, List.append_assoc, List.cons_append, List.nil_append,
    originCell_plain]
  rw [toList_fill (length_operator op), toList_fill (length_origin e.origin),
    toList_fill (length_key e), toList_fill (length_name e)]
  simp only [leading, List.append_assoc]

/-- The row of a comparison ends with its value. -/
theorem toList_compare (e : Entity) (op : Comparison) (v : Value) :
    (ofCondition .plain (.compare e op v)).toList
      = leading e ++ (cell operatorWidth (Operator.comparison op).name.toList ++ v.chars) := by
  have hrow := toList_row e (.comparison op) v.text
  have hends := Text.stopsAt_reverse_append
    (leading e ++ cell operatorWidth (Operator.comparison op).name.toList) v.chars_ne_nil
    v.stopsAt_reverse
  have hnone : ∀ c ∈ ([] : List Char), Text.isBlank c = true := nofun
  have htrim := Text.trimEnd_append hends hnone
  rw [Value.text, String.toList_ofList] at hrow
  rw [List.append_nil, List.append_assoc] at htrim
  show (String.ofList (Text.trimEnd (row _ _ _ _ _).toList)).toList = _
  rw [String.toList_ofList]
  exact (congrArg Text.trimEnd hrow).trans htrim

/-- The row of a test ends with its operator. -/
theorem toList_test (e : Entity) (op : Test) :
    (ofCondition .plain (.test e op)).toList
      = leading e ++ (Operator.test op).name.toList := by
  have hrow := toList_row e (.test op) ""
  have hword := isWord_operator (.test op)
  have hne : (Operator.test op).name.toList ≠ [] := by cases op <;> decide
  have hends := Text.stopsAt_reverse_append (leading e) hne
    (Text.stopsAt_reverse (not_isBlank_of_isWord hword))
  have hblanks : ∀ c ∈ List.replicate
      (operatorWidth + 1 - (Operator.test op).name.toList.length) ' ', Text.isBlank c = true := by
    intro c hc
    rw [(List.mem_replicate.1 hc).2]
    decide
  have htrim := Text.trimEnd_append hends hblanks
  rw [List.append_assoc] at htrim
  rw [show ("" : String).toList = [] from rfl, List.append_nil, cell] at hrow
  show (String.ofList (Text.trimEnd (row _ _ _ _ _).toList)).toList = _
  rw [String.toList_ofList]
  exact (congrArg Text.trimEnd hrow).trans htrim

/-- The first three cells start in their columns, whatever follows. -/
theorem fills_leading (e : Entity) (rest : List Char) :
    Fills (leading e ++ rest) 0 31 (cut entityWidth e.name).toList
      ∧ Fills (leading e ++ rest) 31 48 (cut keyWidth (e.key.getD "")).toList
      ∧ Fills (leading e ++ rest) 48 55 ((e.origin.map Origin.key).getD "-").toList := by
  have hstart : ([] : List Char).length = 0 := rfl
  have hname := length_cell (length_name e)
  have hkey := length_cell (length_key e)
  have htwo : (cell entityWidth (cut entityWidth e.name).toList
      ++ cell keyWidth (cut keyWidth (e.key.getD "")).toList).length = 48 := by
    rw [List.length_append, hname, hkey]
    rfl
  refine ⟨?_, ?_, ?_⟩
  · rw [leading, List.append_assoc]
    exact fills_cell hstart (length_name e) _
  · rw [leading, List.append_assoc, List.append_assoc]
    exact fills_cell hname (length_key e) _
  · rw [leading, ← List.append_assoc, List.append_assoc]
    exact fills_cell htwo (length_origin e.origin) _

/-- The row of a condition shows it, whatever characters its texts have. -/
theorem shows_row (c : Condition) : Shows (ofCondition .plain c).toList c := by
  cases c with
  | compare e op v =>
    have hwidth := length_operator (.comparison op)
    have hbefore : (leading e ++ cell operatorWidth (Operator.comparison op).name.toList).length
        = 78 := by
      rw [List.length_append, length_leading, length_cell hwidth]
      rfl
    rw [toList_compare]
    obtain ⟨hname, hkey, horigin⟩ := fills_leading e
      (cell operatorWidth (Operator.comparison op).name.toList ++ v.chars)
    refine ⟨⟨_, shortened_cut 30 e.name, hname⟩, ⟨_, shortened_cut 16 (e.key.getD ""), hkey⟩, horigin,
      fun w hw => ⟨fills_cell (length_leading e) hwidth v.chars, ?_⟩, nofun⟩
    obtain rfl := Option.some.inj hw
    rw [← List.append_assoc, List.drop_left' hbefore]
  | test e op =>
    rw [toList_test]
    obtain ⟨hname, hkey, horigin⟩ := fills_leading e (Operator.test op).name.toList
    refine ⟨⟨_, shortened_cut 30 e.name, hname⟩, ⟨_, shortened_cut 16 (e.key.getD ""), hkey⟩, horigin,
      fun v hv => absurd hv nofun, fun _ => ?_⟩
    rw [List.drop_left' (length_leading e)]
    rfl

/-! ## Line breaks in a row -/

/-- No line break is shown of a condition: there is none in what its row shows of the key, and none in its
value if that is a string. -/
structure ShowsNoBreak (c : Condition) : Prop where
  key : ∀ shown, Shortened 16 (c.entity.key.getD "").toList shown → '\n' ∉ shown
  value : ∀ s, c.value? = some (.string s) → '\n' ∉ s.toList

/-- No line break comes in with the points. -/
theorem Shortened.newline_notMem {width : Nat} {text shown : List Char} (h : Shortened width text shown)
    (hnone : '\n' ∉ text) : '\n' ∉ shown := by
  cases h with
  | whole => exact hnone
  | cut =>
    rw [List.mem_append, not_or]
    exact ⟨fun hmem => hnone (List.mem_of_mem_take hmem), by decide⟩

/-- A condition whose key and string have no line break shows none, whatever is cut off. -/
theorem showsNoBreak_of_notMem {c : Condition} (key : '\n' ∉ (c.entity.key.getD "").toList)
    (value : ∀ s, c.value? = some (.string s) → '\n' ∉ s.toList) : ShowsNoBreak c :=
  ⟨fun _ hshown => hshown.newline_notMem key, value⟩

theorem newline_notMem_of_not_isBlank {cs : List Char} (h : ∀ c ∈ cs, Text.isBlank c = false) :
    '\n' ∉ cs := by
  intro hmem
  simpa using (h _ hmem).symm.trans (by decide : Text.isBlank '\n' = true)

theorem newline_mem_quoted {cs : List Char} : '\n' ∈ quoted cs ↔ '\n' ∈ cs := by
  have hescaped (c : Char) :
      '\n' ∈ (if c = '\'' ∨ c = '\\' then ['\\', c] else [c]) ↔ '\n' = c := by
    split <;> simp
  simp [quoted, List.mem_flatMap, hescaped]

/-- A value is written with a line break only if it is a string that has one. -/
theorem newline_notMem_chars {v : Value} :
    '\n' ∉ v.chars ↔ ∀ s, v = .string s → '\n' ∉ s.toList := by
  cases v with
  | string s => simp [Value.chars, newline_mem_quoted]
  | number n => simpa [Value.chars] using newline_notMem_of_not_isBlank n.not_isBlank
  | boolean b => simpa [Value.chars] using newline_notMem_of_not_isBlank (not_isBlank_booleanText b)

theorem newline_notMem_leading {e : Entity} (h : '\n' ∉ e.name.toList) :
    '\n' ∉ leading e ↔ ∀ shown, Shortened 16 (e.key.getD "").toList shown → '\n' ∉ shown := by
  have hname := (shortened_cut entityWidth e.name).newline_notMem h
  have hcut := shortened_cut keyWidth (e.key.getD "")
  have horigin : '\n' ∉ ((e.origin.map Origin.key).getD "-").toList := by
    cases e.origin with
    | none => decide
    | some o => cases o <;> decide
  simp only [leading, List.mem_append, newline_mem_cell, not_or]
  constructor
  · rintro ⟨-, hkey, -⟩ shown hshown
    exact hshown.unique hcut ▸ hkey
  · intro hkey
    exact ⟨hname, hkey _ hcut, horigin⟩

/-- A row is one line just if it shows no line break. -/
theorem newline_notMem_row {c : Condition} (h : '\n' ∉ c.entity.name.toList) :
    '\n' ∉ (ofCondition .plain c).toList ↔ ShowsNoBreak c := by
  have hleading := newline_notMem_leading h
  have hop (op : Operator) : '\n' ∉ op.name.toList :=
    newline_notMem_of_not_isBlank (not_isBlank_of_isWord (isWord_operator op))
  cases c with
  | compare e op v =>
    rw [toList_compare, List.mem_append, not_or, List.mem_append, not_or, newline_mem_cell,
      newline_notMem_chars]
    constructor
    · rintro ⟨hfirst, -, hvalue⟩
      exact ⟨hleading.1 hfirst, fun s hs => hvalue s (Option.some.inj hs)⟩
    · rintro ⟨hkey, hvalue⟩
      exact ⟨hleading.2 hkey, hop (.comparison op), fun s hs => hvalue s (congrArg some hs)⟩
  | test e op =>
    rw [toList_test, List.mem_append, not_or]
    constructor
    · rintro ⟨hfirst, -⟩
      exact ⟨hleading.1 hfirst, nofun⟩
    · rintro ⟨hkey, -⟩
      exact ⟨hleading.2 hkey, hop (.test op)⟩

/-! ## Tables -/

/-- A text consists of lines: behind each stands a line break, and there is none inside. -/
structure HasLines (cs : List Char) (lines : List (List Char)) : Prop where
  text : cs = lines.flatMap (· ++ ['\n'])
  whole : ∀ l ∈ lines, '\n' ∉ l

/-- A text is the table of conditions: the header, and one line for each of them, in their order, that
shows it. -/
def IsTable (cs : List Char) (conditions : List Condition) : Prop :=
  ∃ rows, HasLines cs ((header .plain).toList :: rows) ∧ List.Forall₂ Shows rows conditions

/-- Each of the texts gives one line break and those that are inside. -/
theorem count_lines (ls : List (List Char)) :
    (ls.flatMap (· ++ ['\n'])).count '\n' = ls.length + (ls.map (List.count '\n')).sum := by
  induction ls with
  | nil => rfl
  | cons l ls ih =>
    rw [List.flatMap_cons, List.count_append, ih, List.count_append, List.map_cons, List.sum_cons,
      List.length_cons, List.count_singleton_self]
    omega

/-- As many lines as texts: then each of the texts is a line. -/
theorem HasLines.whole_of_length {lines ls : List (List Char)}
    (h : HasLines (ls.flatMap (· ++ ['\n'])) lines) (hlength : lines.length = ls.length) :
    ∀ l ∈ ls, '\n' ∉ l := by
  have hnone : (lines.map (List.count '\n')).sum = 0 := by
    refine List.sum_eq_zero_iff_forall_eq_nat.2 fun n hn => ?_
    obtain ⟨l, hl, rfl⟩ := List.mem_map.1 hn
    exact List.count_eq_zero.2 (h.whole l hl)
  have hcount := congrArg (List.count '\n') h.text
  rw [count_lines, count_lines, hnone] at hcount
  have hsum : (ls.map (List.count '\n')).sum = 0 := by omega
  intro l hl
  exact List.count_eq_zero.1
    (List.sum_eq_zero_iff_forall_eq_nat.1 hsum _ (List.mem_map.2 ⟨l, hl, rfl⟩))

variable {f : Filter} {text : String}

/-- The table is the header and the rows, with a line break behind each. -/
theorem toList_ofFilter (p : Palette) (f : Filter) :
    (ofFilter p f).toList
      = ((header p).toList :: f.conditions.map fun c => (ofCondition p c).toList).flatMap
          (· ++ ['\n']) := by
  have newline : "\n".toList = ['\n'] := rfl
  simp [ofFilter, String.toList_join, List.flatMap_map, newline]

/-- A filter whose names have no line break is shown as a table just if none is shown of its conditions. -/
theorem isTable_iff (h : ∀ c ∈ f.conditions, '\n' ∉ c.entity.name.toList) :
    IsTable (ofFilter .plain f).toList f.conditions ↔ ∀ c ∈ f.conditions, ShowsNoBreak c := by
  rw [toList_ofFilter]
  constructor
  · rintro ⟨rows, hlines, hshows⟩ c hc
    have hlength : rows.length = f.conditions.length := hshows.length_eq
    have hwhole := hlines.whole_of_length (by simp [hlength])
    exact (newline_notMem_row (h c hc)).1
      (hwhole _ (List.mem_cons_of_mem _ (List.mem_map.2 ⟨c, hc, rfl⟩)))
  · intro hbreak
    refine ⟨_, ⟨rfl, List.forall_mem_cons.2 ⟨by decide, ?_⟩⟩, ?_⟩
    · intro l hl
      obtain ⟨c, hc, rfl⟩ := List.mem_map.1 hl
      exact (newline_notMem_row (h c hc)).2 (hbreak c hc)
    · rw [List.forall₂_map_left_iff, List.forall₂_same]
      exact fun c _ => shows_row c

/-- **A filter that has been read** is shown by its header and one row for each condition, in their order;
each row shows its condition in the five columns.  The rows are lines of their own, and the text a table,
exactly if no line break is shown: the names have none, but the keys and strings are written as they are. -/
theorem table_of_parsed (h : Filter.parse text = .ok f) :
    (∀ c ∈ f.conditions, Shows (ofCondition .plain c).toList c)
      ∧ (ofFilter .plain f).toList
          = ((header .plain).toList
              :: f.conditions.map fun c => (ofCondition .plain c).toList).flatMap (· ++ ['\n'])
      ∧ (IsTable (ofFilter .plain f).toList f.conditions ↔ ∀ c ∈ f.conditions, ShowsNoBreak c) := by
  refine ⟨fun c _ => shows_row c, toList_ofFilter .plain f, isTable_iff fun c hc => ?_⟩
  have hplain := isPlainName_iff.1 (Filter.isPlain_of_parse h c hc)
  exact newline_notMem_of_not_isBlank (not_isBlank_of_isWord hplain.1)

/-- A key that is cut, an escaped quote and a test without a value. -/
theorem table_of_parsed_cut :
    ∃ f, Filter.parse "a:'k k k k k k k k k'@na EQUALS 'it\\'s' AND b NOT_BLANK" = .ok f
      ∧ ofFilter .plain f
          = "Entity                         Tag Key          Origin Operator               Value\n"
            ++ "a                              k k k k k k k... na     EQUALS                 'it\\'s'\n"
            ++ "b                                               -      NOT_BLANK\n"
      ∧ IsTable (ofFilter .plain f).toList f.conditions := by
  have hread : Filter.parse "a:'k k k k k k k k k'@na EQUALS 'it\\'s' AND b NOT_BLANK"
      = .ok (.single (.and
          (.condition (.compare ⟨"a", some "k k k k k k k k k", some .notApplicable⟩ .equals
            (.string "it's")))
          (.single (.condition (.test ⟨"b", none, none⟩ .notBlank))))) := by decide +kernel
  refine ⟨_, hread, by decide +kernel, (table_of_parsed hread).2.2.2 ?_⟩
  refine List.forall_mem_cons.2 ⟨showsNoBreak_of_notMem (by decide) ?_,
    List.forall_mem_singleton.2 (showsNoBreak_of_notMem (by decide) nofun)⟩
  intro s hs
  obtain rfl := Value.string.inj (Option.some.inj hs)
  decide

/-- A string with a line break takes its row apart. -/
theorem table_broken_by_string :
    ∃ f, Filter.parse "a EQUALS 'x\ny'" = .ok f
      ∧ ofFilter .plain f
          = "Entity                         Tag Key          Origin Operator               Value\n"
            ++ "a                                               -      EQUALS                 'x\n"
            ++ "y'\n"
      ∧ ¬ IsTable (ofFilter .plain f).toList f.conditions := by
  refine ⟨.ofOperand (.condition (.compare ⟨"a", none, none⟩ .equals (.string "x\ny"))),
    by decide +kernel, by decide +kernel, fun htable => ?_⟩
  have hnone := (isTable_iff (by decide)).1 htable
  exact (hnone _ (List.mem_singleton_self _)).value "x\ny" rfl (by decide)

end Table

end TagQuery
