import TagQuery.Proofs.Filter.Rendering

/-!
# Filters that read back

A filter reads back from its text exactly if its names are plain and it keeps to the limits of the parser:

    parse f.text = .ok f ↔
      (∀ c ∈ f.conditions, isPlainName c.entity.name = true) ∧ f.depth ≤ maxDepth
        ∧ f.conditions.length ≤ maxConditions                           (parse_text_iff)

What has been read is such a filter, so reading and printing are inverse wherever a text can be read
(`parse_inverts_text`).  The scanner knows no limits: filters with plain names have texts of their own,
whatever the parser makes of them (`text_inj`).
-/

namespace TagQuery.Filter

open Grammar

variable {f g : Filter} {text : String}

/-- A filter with plain names is read as its tokens. -/
theorem read_text (h : ∀ c ∈ f.conditions, IsPlain c.entity.name) :
    ∃ ls, Lexeme.read f.text = .ok ls ∧ ls.map Lexeme.token = f.tokens :=
  (lexes_filter h Text.stopsAt_nil).read

/-- The names of what has been read are plain. -/
theorem isPlain_of_parse (h : parse text = .ok f) :
    ∀ c ∈ f.conditions, isPlainName c.entity.name = true := by
  intro c hc
  obtain ⟨ls, hread, hfilter, -⟩ := parse_ok_iff.1 h
  obtain ⟨l, hl, htoken⟩ := List.mem_map.1 (name_mem_of_isFilter hfilter c hc)
  exact isPlainName_iff.2 (isPlain_of_read hread l hl c.entity.name htoken)

theorem depth_of_parse (h : parse text = .ok f) : f.depth ≤ maxDepth := by
  obtain ⟨-, -, -, hdepth, -⟩ := parse_ok_iff.1 h
  exact hdepth

theorem count_of_parse (h : parse text = .ok f) : f.conditions.length ≤ maxConditions := by
  obtain ⟨-, -, -, -, hcount⟩ := parse_ok_iff.1 h
  exact hcount

theorem parse_text_iff :
    parse f.text = .ok f ↔
      (∀ c ∈ f.conditions, isPlainName c.entity.name = true) ∧ f.depth ≤ maxDepth
        ∧ f.conditions.length ≤ maxConditions := by
  constructor
  · intro h
    exact ⟨isPlain_of_parse h, depth_of_parse h, count_of_parse h⟩
  · rintro ⟨hplain, hdepth, hcount⟩
    obtain ⟨ls, hread, htokens⟩ := read_text fun c hc => isPlainName_iff.1 (hplain c hc)
    exact parse_ok_iff.2 ⟨ls, hread, htokens ▸ isFilter_tokens f, hdepth, hcount⟩

/-- The text of a filter with plain names is read as that filter or not at all. -/
theorem eq_of_parse_text (h : ∀ c ∈ f.conditions, isPlainName c.entity.name = true)
    (hparse : parse f.text = .ok g) : g = f := by
  obtain ⟨ls, hread, htokens⟩ := read_text fun c hc => isPlainName_iff.1 (h c hc)
  obtain ⟨ks, hread', hfilter, -⟩ := parse_ok_iff.1 hparse
  obtain rfl := Except.ok.inj (hread'.symm.trans hread)
  exact hfilter.unique (htokens ▸ isFilter_tokens f)

/-- Filters with plain names have texts of their own, within the limits of the parser or not. -/
theorem text_inj (hf : ∀ c ∈ f.conditions, isPlainName c.entity.name = true)
    (hg : ∀ c ∈ g.conditions, isPlainName c.entity.name = true) (h : f.text = g.text) : f = g := by
  obtain ⟨ls, hread, htokens⟩ := read_text fun c hc => isPlainName_iff.1 (hf c hc)
  obtain ⟨ks, hread', htokens'⟩ := read_text fun c hc => isPlainName_iff.1 (hg c hc)
  rw [h] at hread
  obtain rfl := Except.ok.inj (hread.symm.trans hread')
  have hderived : IsFilter f.tokens g := by
    rw [← htokens, htokens']
    exact isFilter_tokens g
  exact (isFilter_tokens f).unique hderived

/-- What has been read is read again from its text. -/
theorem parse_text_of_parse (h : parse text = .ok f) : parse f.text = .ok f :=
  parse_text_iff.2 ⟨isPlain_of_parse h, depth_of_parse h, count_of_parse h⟩

/-- **Reading inverts printing** just on the filters with plain names within the limits, among them
everything that has ever been read. -/
theorem parse_inverts_text :
    (∀ f : Filter, parse f.text = .ok f ↔
      (∀ c ∈ f.conditions, isPlainName c.entity.name = true) ∧ f.depth ≤ maxDepth
        ∧ f.conditions.length ≤ maxConditions)
      ∧ ∀ (text : String) (f : Filter), parse text = .ok f → parse f.text = .ok f :=
  ⟨fun _ => parse_text_iff, fun _ _ => parse_text_of_parse⟩

/-- A key without quotes, two blanks, small letters and double quotes: read, printed and read again. -/
theorem parse_inverts_text_spelling :
    parse "a:k@src  equals \"it's\"" = .ok (.ofOperand (.condition
        (.compare ⟨"a", some "k", some .source⟩ .equals (.string "it's"))))
      ∧ parse "a:'k'@src EQUALS 'it\\'s'" = .ok (.ofOperand (.condition
        (.compare ⟨"a", some "k", some .source⟩ .equals (.string "it's")))) := by
  have hread : parse "a:k@src  equals \"it's\"" = .ok (.ofOperand (.condition
      (.compare ⟨"a", some "k", some .source⟩ .equals (.string "it's")))) := by decide +kernel
  have htext : (Filter.ofOperand (.condition
      (.compare ⟨"a", some "k", some .source⟩ .equals (.string "it's")))).text
        = "a:'k'@src EQUALS 'it\\'s'" := by decide +kernel
  exact ⟨hread, htext ▸ parse_inverts_text.2 _ _ hread⟩

end TagQuery.Filter
