import TagQuery.Disk.Access
import TagQuery.Proofs.Disk.Paths
import TagQuery.Proofs.Except

/-!
# What changes on a disk

What is written to a file is read from it.  New directories leave what can be found as it is, and what
cannot be found stays so where nothing new stands at its place:

    d.write p text = .ok d' → d'.read p = .ok text.toUTF8                                     (read_write)
    d.find p = .ok e → d.makeDirectory q = .ok d' → d'.find p = .ok e                (find_makeDirectory)
    ".." ∉ Path.parts p → SamePlace p d d' → d'.find p = .ok e → d.find p = .ok e     (find_of_samePlace)
-/

namespace TagQuery.Disk

variable {d d' : Disk}

/-! ## Walks -/

theorem walk_append {parts more : List String} {l l' : Location} :
    (parts ++ more).foldlM d.enter l = .ok l' ↔
      ∃ k, parts.foldlM d.enter l = .ok k ∧ more.foldlM d.enter k = .ok l' := by
  rw [List.foldlM_append]
  exact Except.bind_ok_iff

theorem find_ok_iff {path : String} {e : Entry} : d.find path = .ok e ↔
    ∃ l, d.resolve path = .ok l ∧ d.lookup l = some e
      ∧ (Path.wantsDirectory path = true → e = .directory) := by
  unfold find
  rw [Except.bind_ok_iff]
  refine exists_congr fun l => and_congr_right fun _ => ?_
  split
  · next h => simp [h]
  · next h =>
    constructor
    · rintro ⟨⟩
      exact ⟨h, fun _ => rfl⟩
    · rintro ⟨he, -⟩
      rw [h] at he
      cases he
      rfl
  · next content h =>
    split
    · next hwants =>
      simp only [h, hwants, reduceCtorEq, false_iff, not_and, Option.some.injEq]
      rintro rfl hfile
      cases hfile trivial
    · next hwants => simp [h, hwants, eq_comm]

theorem read_ok_iff {path : String} {bytes : ByteArray} :
    d.read path = .ok bytes ↔ d.find path = .ok (.file bytes) := by
  unfold read
  split
  · next content h => simp [h]
  · next h => simp [h]
  · next h => simp [h]

theorem kindOf_eq_none_iff {path : String} : d.kindOf path = none ↔ ∀ e, d.find path ≠ .ok e := by
  unfold kindOf
  split
  · next h => simp [h]
  · next h => simp [h]
  · next h => simp [h]

/-! ## New entries -/

/-- A walk leads to the same place once something else stands where a new entry can stand. -/
theorem resolve_insert {l k : Location} {path : String} (h : d.Free l) {e : Entry}
    (hk : d.resolve path = .ok k) : (d.insert l e h).resolve path = .ok k := by
  have step : ∀ {k k' part}, d.enter k part = .ok k' → (d.insert l e h).enter k part = .ok k' := by
    intro k k' part hstep
    obtain ⟨hdirectory, hpart⟩ := enter_ok_iff.1 hstep
    have hne : k ≠ l := by
      rintro rfl
      exact h.free hdirectory
    exact enter_ok_iff.2 ⟨by rw [lookup_insert_of_ne hne, hdirectory], hpart⟩
  have go : ∀ (parts : List String) {start k : Location}, parts.foldlM d.enter start = .ok k →
      parts.foldlM (d.insert l e h).enter start = .ok k := by
    intro parts
    induction parts with
    | nil => exact fun hwalk => hwalk
    | cons part parts ih =>
      intro start k hwalk
      obtain ⟨next, hnext, hrest⟩ := walk_cons.1 hwalk
      exact walk_cons.2 ⟨next, step hnext, ih hrest⟩
  obtain ⟨hne, hsize, hwalk⟩ := resolve_ok_iff.1 hk
  exact resolve_ok_iff.2 ⟨hne, hsize, go _ hwalk⟩

theorem makeDirectory_ok_iff {path : String} : d.makeDirectory path = .ok d' ↔
    ∃ (l : Location) (h : d.Free l), d.resolve path = .ok l ∧ d.lookup l = none
      ∧ d' = d.insert l .directory h := by
  unfold makeDirectory
  split
  · next h => simp [h]
  · next l hl =>
    split
    · next hfound => simp [hl, hfound]
    · next hfree =>
      have free := free_of_resolve hl (by simp [hfree])
      simp only [hl, Except.ok.injEq]
      constructor
      · rintro rfl
        exact ⟨l, free, rfl, hfree, rfl⟩
      · rintro ⟨_, _, rfl, -, rfl⟩
        rfl

/-- What can be found is found behind a new directory too. -/
theorem find_makeDirectory {path q : String} {e : Entry} (hfind : d.find path = .ok e)
    (hmake : d.makeDirectory q = .ok d') : d'.find path = .ok e := by
  obtain ⟨l, hl, he, hwants⟩ := find_ok_iff.1 hfind
  obtain ⟨k, free, -, hfree, rfl⟩ := makeDirectory_ok_iff.1 hmake
  have hne : l ≠ k := by
    rintro rfl
    rw [hfree] at he
    cases he
  exact find_ok_iff.2 ⟨l, resolve_insert free hl, by rw [lookup_insert_of_ne hne, he], hwants⟩

/-- The directories in front of a path that leads somewhere are there. -/
theorem resolve_of_encloses {q p : String} (h : Path.Encloses q p) {l : Location}
    (hp : d.resolve p = .ok l) : ∃ k, d.resolve q = .ok k ∧ d.lookup k = some .directory := by
  obtain ⟨hne, hsize, hwalk⟩ := resolve_ok_iff.1 hp
  obtain ⟨part, more, hparts⟩ := h.parts
  rw [hparts] at hwalk
  obtain ⟨k, hk, hrest⟩ := walk_append.1 hwalk
  obtain ⟨k', hpart, -⟩ := walk_cons.1 hrest
  refine ⟨k, resolve_ok_iff.2 ⟨h.nonempty, Nat.le_trans h.size_le hsize, ?_⟩, (enter_ok_iff.1 hpart).1⟩
  rwa [start, ← h.isAbsolute_eq]

/-- Directories that are there are not made. -/
theorem makeDirectory_there {path : String} {l : Location} (hl : d.resolve path = .ok l)
    (there : d.lookup l = some .directory) : d.makeDirectory path = .error .alreadyExists := by
  unfold makeDirectory
  split
  · next h => simp [hl] at h
  · next k hk =>
    obtain rfl := Except.ok.inj (hl.symm.trans hk)
    split
    · rfl
    · next hfree => simp [there] at hfree

theorem kindOf_directory {path : String} {l : Location} (hl : d.resolve path = .ok l)
    (there : d.lookup l = some .directory) : d.kindOf path = some .directory := by
  have hfind : d.find path = .ok .directory := find_ok_iff.2 ⟨l, hl, there, fun _ => rfl⟩
  rw [kindOf, hfind]

/-! ## Paths that never turn back -/

/-- Where a path without double points leads to, if it leads anywhere. -/
def straight (d : Disk) (path : String) : Location :=
  d.start path ++ Path.parts path

theorem walk_straight {parts : List String} {l l' : Location} (hback : ".." ∉ parts)
    (h : parts.foldlM d.enter l = .ok l') : l' = l ++ parts := by
  induction parts generalizing l with
  | nil =>
    cases h
    simp
  | cons part parts ih =>
    simp only [List.mem_cons, not_or] at hback
    obtain ⟨k, hk, hrest⟩ := walk_cons.1 h
    obtain ⟨-, ⟨hpart, -⟩ | ⟨-, -, rfl⟩⟩ := enter_ok_iff.1 hk
    · exact absurd hpart.symm hback.1
    · rw [ih hback.2 hrest]
      simp

theorem resolve_straight {path : String} {l : Location} (hback : ".." ∉ Path.parts path)
    (h : d.resolve path = .ok l) : l = d.straight path :=
  walk_straight hback (resolve_ok_iff.1 h).2.2

/-- A directory in front of the path stands somewhere else than what the path leads to. -/
theorem ne_straight_of_encloses {q p : String} (h : Path.Encloses q p) (hback : ".." ∉ Path.parts p)
    {k : Location} (hq : d.resolve q = .ok k) : k ≠ d.straight p := by
  obtain ⟨part, more, hparts⟩ := h.parts
  have hk : k = d.straight q :=
    resolve_straight (fun hmem => hback (by rw [hparts]; exact List.mem_append_left _ hmem)) hq
  rw [hk, straight, straight, start, start, h.isAbsolute_eq, hparts]
  intro heq
  have hlength := congrArg List.length heq
  simp at hlength

/-! ## Files -/

theorem write_ok_iff {path text : String} : d.write path text = .ok d' ↔ Path.wantsDirectory path = false
    ∧ ∃ (l : Location) (h : d.Free l), d.resolve path = .ok l ∧ d' = d.insert l (.file text.toUTF8) h := by
  unfold write
  split
  · next hwants => simp [hwants]
  · next hwants =>
    simp only [Bool.not_eq_true] at hwants
    simp only [hwants, true_and]
    split
    · next h => simp [h]
    · next l hl =>
      have written (free : d.Free l) :
          Except.ok (ε := AccessError) (d.insert l (.file text.toUTF8) free) = .ok d' ↔
          ∃ (k : Location) (h : d.Free k), d.resolve path = .ok k
            ∧ d' = d.insert k (.file text.toUTF8) h := by
        simp only [hl, Except.ok.injEq]
        constructor
        · rintro rfl
          exact ⟨l, free, rfl, rfl⟩
        · rintro ⟨_, _, rfl, rfl⟩
          rfl
      split
      · next hfound =>
        refine iff_of_false nofun ?_
        rintro ⟨k, free, hk, -⟩
        obtain rfl := Except.ok.inj (hl.symm.trans hk)
        exact free.free hfound
      · exact written _
      · exact written _

/-- What is written to a file is read from it. -/
theorem read_write {path text : String} (h : d.write path text = .ok d') :
    d'.read path = .ok text.toUTF8 := by
  obtain ⟨hwants, l, free, hl, rfl⟩ := write_ok_iff.1 h
  refine read_ok_iff.2 (find_ok_iff.2 ⟨l, resolve_insert free hl, lookup_insert_self free _, ?_⟩)
  simp [hwants]

/-- A file that can be read can be written. -/
theorem exists_write {path : String} {bytes : ByteArray} (h : d.read path = .ok bytes) (text : String) :
    ∃ d', d.write path text = .ok d' := by
  obtain ⟨l, hl, hfile, hwants⟩ := find_ok_iff.1 (read_ok_iff.1 h)
  refine ⟨_, write_ok_iff.2 ⟨?_, l, free_of_resolve hl (by rw [hfile]; simp), hl, rfl⟩⟩
  cases hw : Path.wantsDirectory path with
  | false => rfl
  | true => cases hwants hw

/-! ## Places that stay as they are -/

/-- The place of a path is the same on both disks, and so is what is there. -/
structure SamePlace (path : String) (d d' : Disk) : Prop where
  here : d'.here = d.here
  there : d'.lookup (d.straight path) = d.lookup (d.straight path)

namespace SamePlace

variable {path : String}

theorem refl (path : String) (d : Disk) : SamePlace path d d :=
  ⟨rfl, rfl⟩

theorem start_eq (h : SamePlace path d d') : d'.start path = d.start path := by
  rw [start, start, h.here]

theorem straight_eq (h : SamePlace path d d') : d'.straight path = d.straight path := by
  rw [straight, straight, h.start_eq]

theorem trans {d'' : Disk} (h : SamePlace path d d') (h' : SamePlace path d' d'') :
    SamePlace path d d'' := by
  refine ⟨h'.here.trans h.here, ?_⟩
  rw [← h.straight_eq, h'.there, h.straight_eq, h.there]

/-- A directory in front of the path is made at another place. -/
theorem of_makeDirectory {q : String} (hq : Path.Encloses q path) (hback : ".." ∉ Path.parts path)
    (hmake : d.makeDirectory q = .ok d') : SamePlace path d d' := by
  obtain ⟨k, free, hk, -, rfl⟩ := makeDirectory_ok_iff.1 hmake
  exact ⟨rfl, lookup_insert_of_ne (ne_straight_of_encloses hq hback hk).symm free .directory⟩

end SamePlace

/-- What stands somewhere has directories above it. -/
theorem lookup_above_append {l : Location} {part : String} {parts : List String}
    (h : d.lookup (l ++ part :: parts) ≠ none) : d.lookup l = some .directory := by
  induction parts generalizing l part with
  | nil => exact lookup_above h
  | cons next parts ih =>
    have hnext : d.lookup ((l ++ [part]) ++ next :: parts) ≠ none := by simpa using h
    have hlast : d.lookup (l ++ [part]) ≠ none := by
      rw [ih hnext]
      simp
    exact lookup_above hlast

/-- Where the end of a walk is there, so is all of its way. -/
theorem walk_of_there {parts : List String} {l l' : Location} (hback : ".." ∉ parts)
    (hwalk : parts.foldlM d'.enter l = .ok l') (hthere : d.lookup (l ++ parts) ≠ none) :
    parts.foldlM d.enter l = .ok (l ++ parts) := by
  induction parts generalizing l with
  | nil =>
    rw [List.append_nil]
    rfl
  | cons part parts ih =>
    simp only [List.mem_cons, not_or] at hback
    obtain ⟨k, hk, hrest⟩ := walk_cons.1 hwalk
    obtain ⟨-, ⟨hpart, -⟩ | ⟨hpart, hshort, rfl⟩⟩ := enter_ok_iff.1 hk
    · exact absurd hpart.symm hback.1
    · have hl : d.lookup l = some .directory := lookup_above_append hthere
      have hnext := ih hback.2 hrest (by simpa using hthere)
      rw [List.append_assoc] at hnext
      exact walk_cons.2 ⟨_, enter_ok_iff.2 ⟨hl, .inr ⟨hpart, hshort, rfl⟩⟩, hnext⟩

/-- The place of a path that does not turn back alone decides whether the path leads anywhere. -/
theorem find_of_samePlace {path : String} (hback : ".." ∉ Path.parts path) (same : SamePlace path d d')
    {e : Entry} (h : d'.find path = .ok e) : d.find path = .ok e := by
  obtain ⟨l, hl, he, hwants⟩ := find_ok_iff.1 h
  obtain ⟨hne, hsize, hwalk⟩ := resolve_ok_iff.1 hl
  rw [resolve_straight hback hl, same.straight_eq, same.there] at he
  rw [same.start_eq] at hwalk
  have hthere : d.lookup (d.start path ++ Path.parts path) ≠ none :=
    Option.ne_none_iff_exists'.2 ⟨e, he⟩
  have hresolve : d.resolve path = .ok (d.straight path) :=
    resolve_ok_iff.2 ⟨hne, hsize, walk_of_there hback hwalk hthere⟩
  exact find_ok_iff.2 ⟨d.straight path, hresolve, he, hwants⟩

end TagQuery.Disk
