import TagQuery.Disk.Path

/-! Files and directories.

A `Disk` knows what stands at each location; a location lists the names from the root on.  The working
directory is there, and so is the directory that an entry stands in: what is put on a disk is put at a place
for it (`Disk.Free`). -/

namespace TagQuery

/-- Why a file or directory cannot be used. -/
inductive AccessError where
  | notFound
  | alreadyExists
  | notADirectory
  | isADirectory
  | nameTooLong
  /-- The bytes are no text. -/
  | notText
  /-- What else a system may report. -/
  | other (description : String)
  deriving DecidableEq, Repr

def AccessError.message : AccessError → String
  | .notFound => "No such file or directory (os error 2)"
  | .alreadyExists => "File exists (os error 17)"
  | .notADirectory => "Not a directory (os error 20)"
  | .isADirectory => "Is a directory (os error 21)"
  | .nameTooLong => "File name too long (os error 36)"
  | .notText => "stream did not contain valid UTF-8"
  | .other description => description

/-- The text that bytes stand for. -/
def textOf (bytes : ByteArray) : Except AccessError String :=
  match String.fromUTF8? bytes with
  | some text => .ok text
  | none => .error .notText

/-- What stands at a location. -/
inductive Entry where
  | file (content : ByteArray)
  | directory

inductive Kind where
  | directory
  | other
  deriving DecidableEq, Repr

/-- A place in the tree of directories: the names from the root on. -/
abbrev Location := List String

/-- What a list of entries has at a location; the root is always there. -/
def entryAt (entries : List (Location × Entry)) : Location → Option Entry
  | [] => some .directory
  | l => entries.lookup l

/-- A tree of directories with files in it, and the working directory. -/
structure Disk where
  entries : List (Location × Entry)
  here : Location
  standsHere : entryAt entries here = some .directory
  /-- What stands somewhere, stands in a directory. -/
  standsAbove : ∀ l part, entryAt entries (l ++ [part]) ≠ none → entryAt entries l = some .directory

/-! ## Entries -/

theorem entryAt_cons_self {l : Location} (h : l ≠ []) (e : Entry) (es : List (Location × Entry)) :
    entryAt ((l, e) :: es) l = some e := by
  cases l with
  | nil => exact absurd rfl h
  | cons part l => simp [entryAt]

theorem entryAt_cons_filter_of_ne {l k : Location} (h : k ≠ l) (e : Entry) (es : List (Location × Entry)) :
    entryAt ((l, e) :: es.filter fun x => x.1 != l) k = entryAt es k := by
  cases k with
  | nil => rfl
  | cons part k =>
    have others : (es.filter fun x => x.1 != l).lookup (part :: k) = es.lookup (part :: k) := by
      induction es with
      | nil => rfl
      | cons x es ih =>
        by_cases hx : x.1 = l
        · rw [List.filter_cons_of_neg (by simp [hx]), ih, List.lookup_cons]
          have : ((part :: k) == x.1) = false := by simpa [hx] using h
          rw [this]
        · rw [List.filter_cons_of_pos (by simp [hx]), List.lookup_cons, List.lookup_cons, ih]
    have first : ((part :: k) == l) = false := by simpa using h
    simp only [entryAt, List.lookup_cons, first, others]

/-- The directories that lead to a location, and the one at it. -/
def directoriesTo (l : Location) : List (Location × Entry) :=
  (List.range l.length).map fun n => (l.take (n + 1), .directory)

theorem entryAt_directoriesTo_iff {here l : Location} {e : Entry} :
    entryAt (directoriesTo here) l = some e ↔ l <+: here ∧ e = .directory := by
  cases l with
  | nil => simp [entryAt, eq_comm]
  | cons part l =>
    have entry : ∀ {e}, entryAt (directoriesTo here) (part :: l) = some e →
        part :: l <+: here ∧ e = .directory := by
      intro e h
      obtain ⟨front, back, hentries, -⟩ := List.lookup_eq_some_iff.1 h
      have hmem : (part :: l, e) ∈ directoriesTo here := by
        rw [hentries]
        simp
      obtain ⟨n, -, hn⟩ := List.mem_map.1 hmem
      obtain ⟨hl, rfl⟩ := Prod.mk.inj hn
      exact ⟨hl ▸ List.take_prefix _ _, rfl⟩
    refine ⟨entry, ?_⟩
    rintro ⟨hfront, rfl⟩
    cases hfound : entryAt (directoriesTo here) (part :: l) with
    | some e => rw [(entry hfound).2]
    | none =>
      have hmem : (part :: l, Entry.directory) ∈ directoriesTo here := by
        have hlength := hfront.length_le
        simp only [List.length_cons] at hlength
        exact List.mem_map.2 ⟨l.length, List.mem_range.2 hlength,
          by rw [show l.length + 1 = (part :: l).length from rfl, ← List.prefix_iff_eq_take.1 hfront]⟩
      simpa using List.lookup_eq_none_iff.1 hfound _ hmem

namespace Disk

variable {d : Disk}

/-! ## Disks -/

/-- A disk that has nothing but the working directory and what it stands in. -/
def empty (here : Location) : Disk where
  entries := directoriesTo here
  here := here
  standsHere := entryAt_directoriesTo_iff.2 ⟨List.prefix_rfl, rfl⟩
  standsAbove l part h := by
    obtain ⟨e, he⟩ := Option.ne_none_iff_exists'.1 h
    exact entryAt_directoriesTo_iff.2
      ⟨(List.prefix_append _ _).trans (entryAt_directoriesTo_iff.1 he).1, rfl⟩

def lookup (d : Disk) (l : Location) : Option Entry :=
  entryAt d.entries l

theorem lookup_here (d : Disk) : d.lookup d.here = some .directory :=
  d.standsHere

theorem lookup_above {l : Location} {part : String} (h : d.lookup (l ++ [part]) ≠ none) :
    d.lookup l = some .directory :=
  d.standsAbove l part h

/-- A place for something new: it is in a directory, and no directory is there. -/
structure Free (d : Disk) (l : Location) : Prop where
  above : ∃ k part, l = k ++ [part] ∧ d.lookup k = some .directory
  free : d.lookup l ≠ some .directory

theorem Free.ne_nil {l : Location} (h : d.Free l) : l ≠ [] := by
  rintro rfl
  exact h.free rfl

/-- The disk with something else at a location. -/
def insert (d : Disk) (l : Location) (e : Entry) (h : d.Free l) : Disk where
  entries := (l, e) :: d.entries.filter fun x => x.1 != l
  here := d.here
  standsHere := by
    rw [entryAt_cons_filter_of_ne]
    · exact d.standsHere
    · intro heq
      exact h.free (heq ▸ d.standsHere)
  standsAbove k part := by
    have kept : ∀ {k}, entryAt d.entries k = some .directory →
        entryAt ((l, e) :: d.entries.filter fun x => x.1 != l) k = some .directory := by
      intro k hk
      rw [entryAt_cons_filter_of_ne]
      · exact hk
      · rintro rfl
        exact h.free hk
    intro hthere
    by_cases hl : k ++ [part] = l
    · obtain ⟨k', part', rfl, hk'⟩ := h.above
      obtain ⟨rfl, -⟩ := List.append_inj' hl rfl
      exact kept hk'
    · rw [entryAt_cons_filter_of_ne hl] at hthere
      exact kept (d.standsAbove k part hthere)

theorem lookup_insert_self {l : Location} (h : d.Free l) (e : Entry) : (d.insert l e h).lookup l = some e :=
  entryAt_cons_self h.ne_nil e _

theorem lookup_insert_of_ne {l k : Location} (hne : k ≠ l) (h : d.Free l) (e : Entry) :
    (d.insert l e h).lookup k = d.lookup k :=
  entryAt_cons_filter_of_ne hne e d.entries

/-- The files below the working directory, with their paths from there. -/
def files (d : Disk) : List (String × ByteArray) :=
  d.entries.filterMap fun x =>
    match x with
    | (l, .file content) =>
      if d.here.isPrefixOf l then
        some (Path.ofParts false (l.drop d.here.length), content)
      else none
    | (_, .directory) => none

end Disk

end TagQuery
