import TagQuery.Command.Report
import TagQuery.Proofs.Command.Rows

/-!
# What colours change

Styles are written as escape sequences: `ESC`, a bracket, numbers and an `m`.  `Text.unstyled` takes them
out of a text, also those that a key or a string has brought along.  No blank and no line break is part of
one, so what stands before it and what stands behind it are taken by themselves (`Text.unstyled_append`).

The mark of a valid filter and the header of a table are the same with colours and without.  The dash that
stands where no origin is written is not: its cell is filled up by the length it has with its escape
sequences, and so it is already wider than its column.  Five blanks are missing behind each such dash:

    unstyled (ofFilter .colored f).toList = unstyled (ofFilter .plain f).toList
      ↔ ∀ c ∈ f.conditions, c.entity.origin.isSome = true                          (unstyled_ofFilter_iff)
-/

namespace TagQuery

namespace Text

/-! ## Texts without styles -/

/-- The text behind the numbers of a style and the `m` that ends it. -/
def afterNumbers? : List Char → Option (List Char)
  | [] => none
  | c :: cs =>
    if c = 'm' then some cs
    else if c.isDigit || c == ';' then afterNumbers? cs
    else none

/-- The text behind the style that a text starts with. -/
def afterStyle? : List Char → Option (List Char)
  | c :: d :: cs => if c = '\x1b' ∧ d = '[' then afterNumbers? cs else none
  | _ => none

theorem length_afterNumbers? {cs rest : List Char} (h : afterNumbers? cs = some rest) :
    rest.length < cs.length := by
  induction cs with
  | nil => cases h
  | cons c cs ih =>
    rw [afterNumbers?] at h
    split at h
    · obtain rfl := Option.some.inj h
      exact Nat.lt_succ_self _
    · split at h
      · exact Nat.lt_succ_of_lt (ih h)
      · cases h

theorem length_afterStyle? {cs rest : List Char} (h : afterStyle? cs = some rest) :
    rest.length < cs.length := by
  unfold afterStyle? at h
  split at h
  · next c d cs =>
    split at h
    · have hlt := length_afterNumbers? h
      simp only [List.length_cons]
      omega
    · cases h
  · cases h

/-- A text without its styles. -/
def unstyled (cs : List Char) : List Char :=
  match cs with
  | [] => []
  | c :: cs =>
    match _h : afterStyle? (c :: cs) with
    | some rest => unstyled rest
    | none => c :: unstyled cs
termination_by cs.length
decreasing_by
  · exact length_afterStyle? ‹_›
  · exact Nat.lt_succ_self _

theorem unstyled_nil : unstyled [] = [] := by
  rw [unstyled]

theorem unstyled_of_some {cs rest : List Char} (h : afterStyle? cs = some rest) :
    unstyled cs = unstyled rest := by
  cases cs with
  | nil => cases h
  | cons c cs =>
    rw [unstyled]
    split
    · next rest' h' =>
      obtain rfl := Option.some.inj (h.symm.trans h')
      rfl
    · next h' => cases h.symm.trans h'

theorem unstyled_of_none {c : Char} {cs : List Char} (h : afterStyle? (c :: cs) = none) :
    unstyled (c :: cs) = c :: unstyled cs := by
  rw [unstyled]
  split
  · next h' => cases h.symm.trans h'
  · rfl

/-- Only `ESC` starts a style. -/
theorem afterStyle?_cons {c : Char} (h : c ≠ '\x1b') (cs : List Char) : afterStyle? (c :: cs) = none := by
  cases cs with
  | nil => rfl
  | cons d cs => exact if_neg fun hstart => h hstart.1

/-- Where no style starts, a text stays as it is, whatever follows. -/
theorem unstyled_append_of_notMem {cs : List Char} (h : '\x1b' ∉ cs) (rest : List Char) :
    unstyled (cs ++ rest) = cs ++ unstyled rest := by
  induction cs with
  | nil => rfl
  | cons c cs ih =>
    rw [List.mem_cons, not_or] at h
    rw [List.cons_append, unstyled_of_none (afterStyle?_cons (Ne.symm h.1) _), ih h.2, List.cons_append]

theorem unstyled_of_notMem {cs : List Char} (h : '\x1b' ∉ cs) : unstyled cs = cs := by
  have hrest := unstyled_append_of_notMem h []
  rwa [unstyled_nil, List.append_nil] at hrest

/-- A character that is no part of a style. -/
structure IsOutside (c : Char) : Prop where
  number : (c.isDigit || c == ';') = false
  escape : c ≠ '\x1b'
  bracket : c ≠ '['
  last : c ≠ 'm'

section

variable {c : Char} (h : IsOutside c)

include h

theorem afterNumbers?_append (cs rest : List Char) :
    afterNumbers? (cs ++ c :: rest) = (afterNumbers? cs).map (· ++ c :: rest) := by
  induction cs with
  | nil =>
    show afterNumbers? (c :: rest) = none
    rw [afterNumbers?, if_neg h.last, h.number, if_neg Bool.false_ne_true]
  | cons d cs ih =>
    rw [List.cons_append, afterNumbers?, afterNumbers?]
    by_cases hlast : d = 'm'
    · rw [if_pos hlast, if_pos hlast]
      rfl
    · rw [if_neg hlast, if_neg hlast, ih]
      split <;> rfl

/-- A style ends before such a character or is none. -/
theorem afterStyle?_append (cs rest : List Char) :
    afterStyle? (cs ++ c :: rest) = (afterStyle? cs).map (· ++ c :: rest) := by
  match cs with
  | [] => exact afterStyle?_cons h.escape rest
  | [d] => exact if_neg fun hstart => h.bracket hstart.2
  | d :: e :: cs =>
    rw [List.cons_append, List.cons_append, afterStyle?, afterStyle?, afterNumbers?_append h]
    split <;> rfl

/-- What stands on either side of such a character is taken by itself. -/
theorem unstyled_append (cs rest : List Char) :
    unstyled (cs ++ c :: rest) = unstyled cs ++ c :: unstyled rest := by
  -- along the text: what starts with a style goes on behind it, else behind the first character
  induction cs using unstyled.induct with
  | case1 =>
    rw [List.nil_append, unstyled_nil, unstyled_of_none (afterStyle?_cons h.escape rest)]
    rfl
  | case2 d cs behind hstyle ih =>
    have hlonger : afterStyle? (d :: cs ++ c :: rest) = some (behind ++ c :: rest) := by
      rw [afterStyle?_append h, hstyle]
      rfl
    rw [unstyled_of_some hstyle, unstyled_of_some hlonger, ih]
  | case3 d cs hnone ih =>
    have hlonger : afterStyle? (d :: cs ++ c :: rest) = none := by
      rw [afterStyle?_append h, hnone]
      rfl
    rw [unstyled_of_none hnone, List.cons_append, List.cons_append, ← ih]
    exact unstyled_of_none hlonger

/-- Texts with such a character behind each are taken one by one. -/
theorem unstyled_flatMap (texts : List (List Char)) :
    unstyled (texts.flatMap (· ++ [c])) = (texts.map unstyled).flatMap (· ++ [c]) := by
  induction texts with
  | nil => exact unstyled_nil
  | cons cs texts ih =>
    rw [List.flatMap_cons, List.append_assoc, List.singleton_append, unstyled_append h, ih, List.map_cons,
      List.flatMap_cons, List.append_assoc, List.singleton_append]

end

theorem isOutside_blank : IsOutside ' ' := by
  constructor <;> decide

theorem isOutside_newline : IsOutside '\n' := by
  constructor <;> decide

/-- A style that is put around a text goes away again. -/
theorem unstyled_around (p : Palette) (start text stop : String)
    (hstart : ∀ cs, afterStyle? (start.toList ++ cs) = some cs)
    (hstop : ∀ cs, afterStyle? (stop.toList ++ cs) = some cs) (hnone : '\x1b' ∉ text.toList)
    (rest : List Char) :
    unstyled ((p.around start text stop).toList ++ rest) = text.toList ++ unstyled rest := by
  cases p with
  | plain => exact unstyled_append_of_notMem hnone rest
  | colored =>
    show unstyled ((start ++ text ++ stop).toList ++ rest) = _
    rw [String.toList_append, String.toList_append, List.append_assoc, List.append_assoc,
      unstyled_of_some (hstart _), unstyled_append_of_notMem hnone, unstyled_of_some (hstop _)]

theorem unstyled_dimmed (p : Palette) {text : String} (hnone : '\x1b' ∉ text.toList) (rest : List Char) :
    unstyled ((p.dimmed text).toList ++ rest) = text.toList ++ unstyled rest :=
  unstyled_around p "\x1b[2m" text "\x1b[0m" (fun _ => rfl) (fun _ => rfl) hnone rest

/-- What is left of a text when the blanks at its end go stays at the end, if it is anything. -/
theorem trimEnd_append_of_ne_nil {cs : List Char} (h : trimEnd cs ≠ []) (before : List Char) :
    trimEnd (before ++ cs) = before ++ trimEnd cs := by
  have hkept : ¬ (cs.reverse.dropWhile isBlank).isEmpty = true := by
    intro hempty
    exact h (by rw [trimEnd, trimStart, List.isEmpty_iff.1 hempty, List.reverse_nil])
  rw [trimEnd, trimStart, List.reverse_append, List.dropWhile_append, if_neg hkept, List.reverse_append,
    List.reverse_reverse]
  rfl

end Text

open Text (unstyled unstyled_append unstyled_flatMap unstyled_dimmed isOutside_blank isOutside_newline)

namespace Table

/-! ## Rows -/

variable {c : Condition}

/-- A row up to the blank before the origin. -/
def beforeOrigin (e : Entity) : List Char :=
  (fill entityWidth (cut entityWidth e.name)).toList
    ++ ' ' :: (fill keyWidth (cut keyWidth (e.key.getD ""))).toList

/-- A row from the operator on. -/
def fromOperator (c : Condition) : List Char :=
  Text.trimEnd (cell operatorWidth c.operator.name.toList ++ ((c.value?.map Value.text).getD "").toList)

theorem length_beforeOrigin (e : Entity) : (beforeOrigin e).length = 47 := by
  rw [beforeOrigin, List.length_append, List.length_cons, length_fill (length_name e),
    length_fill (length_key e)]
  rfl

/-- An operator is no blank, so it stays when the row is trimmed. -/
theorem fromOperator_ne_nil (c : Condition) : fromOperator c ≠ [] := by
  have hword := isWord_operator c.operator
  intro hnil
  have hblank : ∀ d ∈ cell operatorWidth c.operator.name.toList
      ++ ((c.value?.map Value.text).getD "").toList, Text.isBlank d = true := by
    intro d hd
    exact List.dropWhile_eq_nil_iff.1 (List.reverse_eq_nil_iff.1 hnil) d (List.mem_reverse.2 hd)
  cases hname : c.operator.name.toList with
  | nil => simp [hname, isWord] at hword
  | cons d ds =>
    have hfirst : d ∈ c.operator.name.toList := hname ▸ List.mem_cons_self
    have hkept := not_isBlank_of_isWord hword d hfirst
    rw [hblank d (List.mem_append_left _ (List.mem_append_left _ hfirst))] at hkept
    cases hkept

/-- The palette changes the cell of the origin and nothing else. -/
theorem toList_ofCondition (p : Palette) (c : Condition) :
    (ofCondition p c).toList
      = beforeOrigin c.entity
        ++ ' ' :: ((fill originWidth (originCell p c.entity.origin)).toList ++ ' ' :: fromOperator c) := by
  have blank : " ".toList = [' '] := rfl
  have hrow : (row (cut entityWidth c.entity.name) (cut keyWidth (c.entity.key.getD ""))
        (originCell p c.entity.origin) c.operator.name ((c.value?.map Value.text).getD "")).toList
      = beforeOrigin c.entity ++ ' ' :: ((fill originWidth (originCell p c.entity.origin)).toList ++ [' '])
        ++ (cell operatorWidth c.operator.name.toList
          ++ ((c.value?.map Value.text).getD "").toList) := by
    simp only [row, beforeOrigin, String.toList_append, blank, List.append_assoc, List.cons_append,
      List.nil_append]
    rw [toList_fill (length_operator c.operator)]
  show (String.ofList (Text.trimEnd (row _ _ _ _ _).toList)).toList = _
  rw [String.toList_ofList, hrow, Text.trimEnd_append_of_ne_nil (fromOperator_ne_nil c)]
  simp only [fromOperator, List.append_assoc, List.cons_append, List.nil_append]

/-- Without its styles, a row is made of three parts. -/
theorem unstyled_ofCondition (p : Palette) (c : Condition) :
    unstyled (ofCondition p c).toList
      = unstyled (beforeOrigin c.entity)
        ++ ' ' :: (unstyled (fill originWidth (originCell p c.entity.origin)).toList
          ++ ' ' :: unstyled (fromOperator c)) := by
  rw [toList_ofCondition, unstyled_append isOutside_blank, unstyled_append isOutside_blank]

/-- A row with an origin has no colours. -/
theorem ofCondition_colored (h : c.entity.origin.isSome = true) :
    ofCondition .colored c = ofCondition .plain c := by
  obtain ⟨o, ho⟩ := Option.isSome_iff_exists.1 h
  simp only [ofCondition, ho, originCell]

/-- A dash stands at character 48 of its row, and the operator at 55. -/
theorem toList_dash (h : c.entity.origin = none) :
    (ofCondition .plain c).toList
      = beforeOrigin c.entity ++ [' '] ++ ('-' :: List.replicate 6 ' ' ++ fromOperator c) := by
  have hfill : (fill originWidth (originCell .plain none)).toList = '-' :: List.replicate 5 ' ' := by
    decide
  rw [toList_ofCondition, h, hfill]
  simp [List.replicate_succ]

/-- A row has a dash for its origin, and six blanks up to the operator; in the other row there is one. -/
structure LosesBlanks (row other : List Char) : Prop where
  kept : unstyled row
    = unstyled (row.take 48) ++ '-' :: (List.replicate 6 ' ' ++ unstyled (row.drop 55))
  lost : unstyled other = unstyled (row.take 48) ++ '-' :: ' ' :: unstyled (row.drop 55)

theorem LosesBlanks.length {row other : List Char} (h : LosesBlanks row other) :
    (unstyled row).length = (unstyled other).length + 5 := by
  rw [h.kept, h.lost]
  simp only [List.length_append, List.length_cons, List.length_replicate]
  omega

/-- A coloured dash has five blanks less behind it. -/
theorem losesBlanks_dash (h : c.entity.origin = none) :
    LosesBlanks (ofCondition .plain c).toList (ofCondition .colored c).toList := by
  have hplain : unstyled (fill originWidth (originCell .plain none)).toList
      = '-' :: List.replicate 5 ' ' := by decide +kernel
  -- the nine characters of the coloured dash are too many to be filled up to six
  have hcolored : unstyled (fill originWidth (originCell .colored none)).toList = ['-'] := by
    decide +kernel
  have hbefore : (beforeOrigin c.entity ++ [' ']).length = 48 := by
    rw [List.length_append, length_beforeOrigin]
    rfl
  have htake : (ofCondition .plain c).toList.take 48 = beforeOrigin c.entity ++ [' '] := by
    rw [toList_dash h, List.take_left' hbefore]
  have hdrop : (ofCondition .plain c).toList.drop 55 = fromOperator c := by
    rw [toList_dash h, ← List.append_assoc, List.drop_left']
    rw [List.length_append, hbefore]
    rfl
  have hfirst : unstyled (beforeOrigin c.entity ++ [' ']) = unstyled (beforeOrigin c.entity) ++ [' '] := by
    rw [unstyled_append isOutside_blank, Text.unstyled_nil]
  constructor
  · rw [htake, hdrop, hfirst, unstyled_ofCondition, h, hplain]
    simp [List.replicate_succ]
  · rw [htake, hdrop, hfirst, unstyled_ofCondition, h, hcolored]
    simp

/-! ## Tables -/

theorem escape_notMem_header : '\x1b' ∉ (header .plain).toList := by
  decide +kernel

/-- Header and rows are taken one by one. -/
theorem unstyled_ofFilter (p : Palette) (f : Filter) :
    unstyled (ofFilter p f).toList
      = ((header .plain).toList :: f.conditions.map fun c => unstyled (ofCondition p c).toList).flatMap
          (· ++ ['\n']) := by
  have hheader : unstyled (header p).toList = (header .plain).toList := by
    have hdimmed : unstyled ((p.dimmed (header .plain)).toList ++ []) = _ :=
      unstyled_dimmed p escape_notMem_header []
    rwa [List.append_nil, Text.unstyled_nil, List.append_nil] at hdimmed
  rw [toList_ofFilter, unstyled_flatMap isOutside_newline, List.map_cons, List.map_map, hheader]
  rfl

/-- Each row with a coloured dash is five characters shorter. -/
theorem length_unstyled_ofCondition (c : Condition) :
    (unstyled (ofCondition .plain c).toList).length
      = (unstyled (ofCondition .colored c).toList).length
        + 5 * if c.entity.origin.isNone then 1 else 0 := by
  cases horigin : c.entity.origin with
  | none => exact (losesBlanks_dash horigin).length
  | some o =>
    rw [ofCondition_colored (by rw [horigin, Option.isSome_some])]
    rfl

theorem length_unstyled_rows (cs : List Condition) :
    ((cs.map fun c => unstyled (ofCondition .plain c).toList).flatMap (· ++ ['\n'])).length
      = ((cs.map fun c => unstyled (ofCondition .colored c).toList).flatMap (· ++ ['\n'])).length
        + 5 * cs.countP fun c => c.entity.origin.isNone := by
  induction cs with
  | nil => rfl
  | cons c cs ih =>
    have hrow := length_unstyled_ofCondition c
    simp only [List.map_cons, List.flatMap_cons, List.length_append, List.countP_cons]
    omega

/-- The table is five characters shorter for each coloured dash. -/
theorem length_unstyled_ofFilter (f : Filter) :
    (unstyled (ofFilter .plain f).toList).length
      = (unstyled (ofFilter .colored f).toList).length
        + 5 * f.conditions.countP fun c => c.entity.origin.isNone := by
  have hrows := length_unstyled_rows f.conditions
  simp only [unstyled_ofFilter, List.flatMap_cons, List.length_append]
  omega

/-- The tables are the same with colours and without just if every condition has an origin. -/
theorem unstyled_ofFilter_iff {f : Filter} :
    unstyled (ofFilter .colored f).toList = unstyled (ofFilter .plain f).toList
      ↔ ∀ c ∈ f.conditions, c.entity.origin.isSome = true := by
  constructor
  · intro heq c hc
    -- each dash would make one of the texts shorter
    have hlength := length_unstyled_ofFilter f
    rw [heq] at hlength
    have hcount : (f.conditions.countP fun c => c.entity.origin.isNone) = 0 := by omega
    have hnone := List.countP_eq_zero.1 hcount c hc
    rwa [← Option.isSome_eq_false_iff, Bool.not_eq_false] at hnone
  · intro hsome
    have hrows : f.conditions.map (fun c => unstyled (ofCondition .colored c).toList)
        = f.conditions.map fun c => unstyled (ofCondition .plain c).toList := by
      refine List.map_congr_left fun c hc => ?_
      rw [ofCondition_colored (hsome c hc)]
    rw [unstyled_ofFilter, unstyled_ofFilter, hrows]

end Table

/-! ## Colours in what is printed -/

/-- The mark of a valid filter is a text of its own, so the rest does not depend on its style. -/
theorem Report.unstyled_checked (m : Manner) (input canonical : String) :
    unstyled (checked { m with palette := .colored } input canonical).toList
      = unstyled (checked { m with palette := .plain } input canonical).toList := by
  have hmark (p : Palette) (rest : List Char) :
      unstyled ((checkMark p).toList ++ rest) = '✓' :: unstyled rest :=
    Text.unstyled_around p "\x1b[32m" "✓" "\x1b[39m" (fun _ => rfl) (fun _ => rfl) (by decide) rest
  by_cases hjson : m.json = true
  · simp only [checked, hjson, if_true]
  · by_cases hquiet : m.quiet = true
    · simp only [checked, hjson, hquiet, if_true]
    · simp only [checked, hjson, hquiet, Bool.false_eq_true, if_false, String.toList_append,
        List.append_assoc, hmark]

namespace Table

/-- **What colours change** in the table of a filter, once they are taken out again: nothing, exactly if
every condition has an origin.  The header and the rows with an origin stay; where a dash stands for the
origin, five blanks behind it are lost, and what follows stands five characters before its column.  The
text of a valid filter stays in any case. -/
theorem colours_keep_columns_iff (f : Filter) :
    (unstyled (ofFilter .colored f).toList = unstyled (ofFilter .plain f).toList
        ↔ ∀ c ∈ f.conditions, c.entity.origin.isSome = true)
      ∧ (∀ p, unstyled (ofFilter p f).toList
          = ((header .plain).toList :: f.conditions.map fun c => unstyled (ofCondition p c).toList).flatMap
              (· ++ ['\n']))
      ∧ (∀ c ∈ f.conditions, c.entity.origin.isSome = true → ofCondition .colored c = ofCondition .plain c)
      ∧ (∀ c ∈ f.conditions, c.entity.origin = none →
          LosesBlanks (ofCondition .plain c).toList (ofCondition .colored c).toList)
      ∧ ∀ (m : Manner) (input canonical : String),
          unstyled (Report.checked { m with palette := .colored } input canonical).toList
            = unstyled (Report.checked { m with palette := .plain } input canonical).toList :=
  ⟨unstyled_ofFilter_iff, fun p => unstyled_ofFilter p f, fun _ _ h => ofCondition_colored h,
    fun _ _ h => losesBlanks_dash h, Report.unstyled_checked⟩

/-- A key and a string that bring styles along, in conditions with origins. -/
theorem colours_keep_columns_iff_brought :
    ∃ f, Filter.parse "a:'\x1b[2mk'@na EQUALS '\x1b[0m' AND b@dest IS_EMPTY" = .ok f
      ∧ ofFilter .colored f ≠ ofFilter .plain f
      ∧ unstyled (ofFilter .colored f).toList = unstyled (ofFilter .plain f).toList := by
  refine ⟨.single (.and
      (.condition (.compare ⟨"a", some "\x1b[2mk", some .notApplicable⟩ .equals (.string "\x1b[0m")))
      (.single (.condition (.test ⟨"b", none, some .destination⟩ .isEmpty)))),
    by decide +kernel, by decide +kernel, (colours_keep_columns_iff _).1.2 ?_⟩
  decide

/-- A table whose only styles are those of the header and of a single dash. -/
theorem unstyled_single_dash {p : Palette} {f : Filter} (name rest : String) (hname : '\x1b' ∉ name.toList)
    (hrest : '\x1b' ∉ rest.toList)
    (h : ofFilter p f = p.dimmed (header .plain) ++ (name ++ (p.dimmed "-" ++ rest))) :
    String.ofList (unstyled (ofFilter p f).toList) = header .plain ++ (name ++ ("-" ++ rest)) := by
  rw [h, String.toList_append, String.toList_append, String.toList_append,
    unstyled_dimmed p escape_notMem_header, Text.unstyled_append_of_notMem hname,
    unstyled_dimmed p (by decide), Text.unstyled_of_notMem hrest]
  simp only [← String.toList_append, String.ofList_toList]

/-- The operator behind a coloured dash stands five characters before its column. -/
theorem dash_loses_blanks :
    ∃ f, Filter.parse "a IS_EMPTY" = .ok f
      ∧ String.ofList (unstyled (ofFilter .plain f).toList)
          = "Entity                         Tag Key          Origin Operator               Value\n"
            ++ "a                                               -      IS_EMPTY\n"
      ∧ String.ofList (unstyled (ofFilter .colored f).toList)
          = "Entity                         Tag Key          Origin Operator               Value\n"
            ++ "a                                               - IS_EMPTY\n"
      ∧ unstyled (ofFilter .colored f).toList ≠ unstyled (ofFilter .plain f).toList := by
  refine ⟨.ofOperand (.condition (.test ⟨"a", none, none⟩ .isEmpty)), by decide +kernel, ?_, ?_,
    fun heq => ?_⟩
  · rw [unstyled_single_dash "\na                                               " "      IS_EMPTY\n"
      (by decide +kernel) (by decide) (by decide +kernel)]
    decide +kernel
  · rw [unstyled_single_dash "\na                                               " " IS_EMPTY\n"
      (by decide +kernel) (by decide) (by decide +kernel)]
    decide +kernel
  · have hsome := unstyled_ofFilter_iff.1 heq _ (List.mem_singleton_self _)
    cases hsome

end Table

end TagQuery
