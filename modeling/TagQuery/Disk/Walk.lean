import TagQuery.Disk.Basic

/-! Where paths lead.

Paths are walked part by part from the working directory (`Disk.resolve`), and every part but the last
has to lead through a directory.  So a walk ends at a directory, or in one (`Disk.standing_of_resolve`). -/

namespace TagQuery.Disk

/-- The most bytes a name may have. -/
def maxName : Nat := 255

/-- The most bytes a path may have. -/
def maxPath : Nat := 4095

/-- The location one part further. -/
def enter (d : Disk) (l : Location) (part : String) : Except AccessError Location :=
  match d.lookup l with
  | none => .error .notFound
  | some (.file _) => .error .notADirectory
  | some .directory =>
    if part = ".." then .ok l.dropLast
    else if maxName < part.utf8ByteSize then .error .nameTooLong
    else .ok (l ++ [part])

/-- Where a path starts. -/
def start (d : Disk) (path : String) : Location :=
  if Path.isAbsolute path then [] else d.here

/-- The location at the end of some parts of a path; nothing need be there. -/
def walk (d : Disk) (path : String) (parts : List String) : Except AccessError Location :=
  if path.isEmpty then .error .notFound
  else if maxPath < path.utf8ByteSize then .error .nameTooLong
  else parts.foldlM d.enter (d.start path)

/-- The location that a path leads to. -/
def resolve (d : Disk) (path : String) : Except AccessError Location :=
  d.walk path (Path.parts path)

def find (d : Disk) (path : String) : Except AccessError Entry := do
  match d.lookup (← d.resolve path) with
  | none => .error .notFound
  | some .directory => .ok .directory
  | some (.file content) =>
    if Path.wantsDirectory path then .error .notADirectory else .ok (.file content)

/-! ## Steps of a walk -/

variable {d : Disk} {l l' : Location} {part : String} {parts : List String}

theorem enter_ok_iff : d.enter l part = .ok l' ↔
    d.lookup l = some .directory
      ∧ (part = ".." ∧ l' = l.dropLast ∨ part ≠ ".." ∧ part.utf8ByteSize ≤ maxName ∧ l' = l ++ [part]) := by
  unfold enter
  split
  · next h => simp [h]
  · next h => simp [h]
  · next h =>
    split
    · next hpart => simp [h, hpart, eq_comm]
    · next hpart =>
      split
      · next hlong => simp [h, hpart]; omega
      · next hshort => simp [h, hpart, eq_comm]; omega

theorem resolve_ok_iff {path : String} : d.resolve path = .ok l ↔
    path ≠ "" ∧ path.utf8ByteSize ≤ maxPath ∧ (Path.parts path).foldlM d.enter (d.start path) = .ok l := by
  unfold resolve walk
  split
  · next hempty => simp [String.isEmpty_iff.1 hempty]
  · next hempty =>
    have hne : path ≠ "" := fun h => hempty (String.isEmpty_iff.2 h)
    split
    · next hlong => simp; omega
    · next hshort => simp [hne]; omega

theorem walk_nil : ([] : List String).foldlM d.enter l = .ok l' ↔ l = l' :=
  Except.ok.injEq l l' ▸ Iff.rfl

theorem walk_cons : (part :: parts).foldlM d.enter l = .ok l' ↔
    ∃ k, d.enter l part = .ok k ∧ parts.foldlM d.enter k = .ok l' := by
  rw [List.foldlM_cons]
  cases d.enter l part <;> simp [bind, Except.bind]

/-- What each step of a walk keeps, the walk keeps. -/
theorem walk_preserves {Q : Location → Prop} (step : ∀ {l l' part}, Q l → d.enter l part = .ok l' → Q l')
    (hl : Q l) (h : parts.foldlM d.enter l = .ok l') : Q l' := by
  induction parts generalizing l with
  | nil =>
    obtain rfl := walk_nil.1 h
    exact hl
  | cons part parts ih =>
    obtain ⟨k, hk, hrest⟩ := walk_cons.1 h
    exact ih (step hl hk) hrest

/-! ## Ends of a walk -/

/-- A place is a directory, or it is in one. -/
def Standing (d : Disk) (l : Location) : Prop :=
  d.lookup l = some .directory ∨ ∃ k part, l = k ++ [part] ∧ d.lookup k = some .directory

/-- A step leads to a place in a directory, or back to a directory. -/
theorem standing_of_enter (h : d.enter l part = .ok l') : d.Standing l' := by
  obtain ⟨hl, ⟨-, rfl⟩ | ⟨-, -, rfl⟩⟩ := enter_ok_iff.1 h
  · -- The way back leads to the directory that this one stands in.
    rcases List.eq_nil_or_concat l with rfl | ⟨k, last, rfl⟩
    · exact .inl rfl
    · rw [List.concat_eq_append] at hl ⊢
      rw [List.dropLast_concat]
      exact .inl (lookup_above (by rw [hl]; simp))
  · exact .inr ⟨l, part, rfl, hl⟩

theorem standing_of_resolve {path : String} (h : d.resolve path = .ok l) : d.Standing l := by
  have hstart : d.Standing (d.start path) := by
    unfold start
    split
    · exact .inl rfl
    · exact .inl d.lookup_here
  exact walk_preserves (fun _ => standing_of_enter) hstart (resolve_ok_iff.1 h).2.2

/-- Where a path leads to and no directory is, there is a place for something new. -/
theorem free_of_resolve {path : String} (h : d.resolve path = .ok l) (free : d.lookup l ≠ some .directory) :
    d.Free l where
  above := (standing_of_resolve h).resolve_left free
  free := free

end TagQuery.Disk
