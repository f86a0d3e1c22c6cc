import TagQuery.Disk.Path

/-!
# The way out of a path

`Path.outward` lists the paths of the directories that the end of a path stands in.  Each of them is the
path up to a slash with more parts behind it:

    segments ("/".intercalate ss) = ss                                        (segments_intercalate)
    q ∈ (outward p).tail → Encloses q p                                       (encloses_of_mem_outward)
-/

namespace TagQuery.Path

open segments (split)

/-! ## Segments -/

theorem split_ne_nil (cs : List Char) : split cs ≠ [] := by
  cases cs with
  | nil => simp [split]
  | cons c cs =>
    unfold split
    split
    · simp
    · split <;> simp

theorem split_append (cs ds : List Char) : split (cs ++ '/' :: ds) = split cs ++ split ds := by
  induction cs with
  | nil =>
    obtain ⟨s, ss, hs⟩ := List.exists_cons_of_ne_nil (split_ne_nil ds)
    simp [split, hs]
  | cons c cs ih =>
    obtain ⟨s, ss, hs⟩ := List.exists_cons_of_ne_nil (split_ne_nil cs)
    rw [List.cons_append, split, split, ih, hs]
    simp only [List.cons_append]
    split <;> rfl

theorem intercalate_split (cs : List Char) : ['/'].intercalate (split cs) = cs := by
  induction cs with
  | nil => simp [split]
  | cons c cs ih =>
    obtain ⟨s, ss, hs⟩ := List.exists_cons_of_ne_nil (split_ne_nil cs)
    rw [split, hs]
    rw [hs] at ih
    dsimp only
    split
    · next hc => rw [List.intercalate_cons_cons, ih, hc]; rfl
    · cases ss with
      | nil => simpa using ih
      | cons t ss => rw [List.intercalate_cons_cons] at ih ⊢; simpa using ih

theorem no_slash_of_split {cs s : List Char} (h : s ∈ split cs) : '/' ∉ s := by
  induction cs generalizing s with
  | nil => simp [split] at h; simp [h]
  | cons c cs ih =>
    obtain ⟨t, ts, ht⟩ := List.exists_cons_of_ne_nil (split_ne_nil cs)
    rw [split, ht] at h
    rw [ht] at ih
    dsimp only at h
    split at h
    · rcases List.mem_cons.1 h with rfl | h
      · simp
      · exact ih h
    · next hc =>
      rcases List.mem_cons.1 h with rfl | h
      · simpa [Ne.symm hc] using ih (s := t) (by simp)
      · exact ih (by simp [h])

theorem split_of_no_slash {s : List Char} (h : '/' ∉ s) : split s = [s] := by
  induction s with
  | nil => rfl
  | cons c s ih =>
    simp only [List.mem_cons, not_or] at h
    rw [split, ih h.2]
    exact if_neg (Ne.symm h.1)

theorem no_slash_of_segments {path s : String} (h : s ∈ segments path) : '/' ∉ s.toList := by
  obtain ⟨cs, hcs, rfl⟩ := List.mem_map.1 h
  rw [String.toList_ofList]
  exact no_slash_of_split hcs

theorem intercalate_segments (path : String) : "/".intercalate (segments path) = path := by
  rw [← String.toList_inj, String.toList_intercalate, segments, List.map_map]
  have hid : String.toList ∘ String.ofList = id := funext fun _ => String.toList_ofList
  rw [hid, List.map_id]
  exact intercalate_split path.toList

/-- More segments stand behind another slash. -/
theorem toList_intercalate_append (ss ts : List String) (hs : ss ≠ []) (ht : ts ≠ []) :
    ("/".intercalate (ss ++ ts)).toList
      = ("/".intercalate ss).toList ++ '/' :: ("/".intercalate ts).toList := by
  obtain ⟨t, ts, rfl⟩ := List.exists_cons_of_ne_nil ht
  simp only [String.toList_intercalate]
  induction ss with
  | nil => exact absurd rfl hs
  | cons s ss ih =>
    cases ss with
    | nil => simp [List.intercalate_cons_cons]
    | cons s' ss =>
      have hmore := ih (by simp)
      simp only [List.cons_append, List.map_cons, List.intercalate_cons_cons] at hmore ⊢
      rw [hmore]
      simp

theorem segments_intercalate {ss : List String} (hne : ss ≠ []) (h : ∀ s ∈ ss, '/' ∉ s.toList) :
    segments ("/".intercalate ss) = ss := by
  induction ss with
  | nil => exact absurd rfl hne
  | cons s ss ih =>
    have hs := split_of_no_slash (h s (by simp))
    cases ss with
    | nil => simp [segments, hs]
    | cons t ts =>
      have hmore := ih (by simp) fun s hs => h s (by simp [hs])
      have htext := toList_intercalate_append [s] (t :: ts) (by simp) (by simp)
      rw [segments, show s :: t :: ts = [s] ++ t :: ts from rfl, htext, split_append, List.map_append]
      simp only [List.cons_append, List.nil_append, String.intercalate_singleton, hs]
      simpa [segments] using hmore

/-! ## Directories in front -/

/-- The end of the path `p` stands in the directory that `q` leads to. -/
structure Encloses (q p : String) : Prop where
  nonempty : q ≠ ""
  text : ∃ more, p.toList = q.toList ++ '/' :: more
  parts : ∃ part more, parts p = parts q ++ part :: more

/-- What is climbed through is the path up to some slash. -/
theorem mem_climb {first q : String} {rev : List String} (h : q ∈ outward.climb first rev) :
    q ≠ "" ∧ ∃ front back, rev.reverse = front ++ back ∧ q = "/".intercalate (first :: front) := by
  induction rev with
  | nil =>
    rw [outward.climb] at h
    split at h
    · cases h
    · next hfirst =>
      obtain rfl := List.mem_singleton.1 h
      exact ⟨hfirst, [], [], rfl, by simp⟩
  | cons s rev ih =>
    rw [outward.climb] at h
    have deeper : q ∈ outward.climb first rev →
        q ≠ "" ∧ ∃ front back, (s :: rev).reverse = front ++ back
          ∧ q = "/".intercalate (first :: front) := by
      intro h
      obtain ⟨hne, front, back, hrev, rfl⟩ := ih h
      exact ⟨hne, front, back ++ [s], by simp [hrev], rfl⟩
    split at h
    · exact deeper h
    · next hs =>
      rcases List.mem_cons.1 h with rfl | h
      · refine ⟨fun hempty => ?_, (s :: rev).reverse, [], by simp, rfl⟩
        have htext := toList_intercalate_append [first] (s :: rev).reverse (by simp) (by simp)
        rw [List.singleton_append, hempty] at htext
        simp at htext
      · exact deeper h

/-- Behind the first path that is climbed through, a segment that means something is left out. -/
theorem mem_tail_climb {first q : String} {rev : List String} (h : q ∈ (outward.climb first rev).tail) :
    q ≠ "" ∧ ∃ front back, rev.reverse = front ++ back ∧ q = "/".intercalate (first :: front)
      ∧ ∃ s ∈ back, isIdle s = false := by
  induction rev with
  | nil =>
    rw [outward.climb] at h
    split at h <;> cases h
  | cons s rev ih =>
    rw [outward.climb] at h
    split at h
    · obtain ⟨hne, front, back, hrev, rfl, t, ht, hmeans⟩ := ih h
      exact ⟨hne, front, back ++ [s], by simp [hrev], rfl, t, by simp [ht], hmeans⟩
    · next hs =>
      obtain ⟨hne, front, back, hrev, rfl⟩ := mem_climb h
      exact ⟨hne, front, back ++ [s], by simp [hrev], rfl, s, by simp, by simpa using hs⟩

theorem encloses_of_mem_outward {q p : String} (h : q ∈ (outward p).tail) : Encloses q p := by
  unfold outward at h
  split at h
  · cases h
  · next first rest hp =>
    obtain ⟨hne, front, back, hrest, rfl, s, hs, hmeans⟩ := mem_tail_climb h
    rw [List.reverse_reverse] at hrest
    have hsegments : segments p = (first :: front) ++ back := by
      rw [hp, hrest]
      rfl
    have hfront : segments ("/".intercalate (first :: front)) = first :: front :=
      segments_intercalate (by simp) fun t ht => by
        have hmem : t ∈ segments p := hsegments ▸ List.mem_append_left back ht
        exact no_slash_of_segments hmem
    refine ⟨hne, ⟨("/".intercalate back).toList, ?_⟩, ?_⟩
    · conv => lhs; rw [← intercalate_segments p, hsegments]
      exact toList_intercalate_append _ _ (by simp) (List.ne_nil_of_mem hs)
    · have hparts :
          parts p = parts ("/".intercalate (first :: front)) ++ back.filter fun s => !isIdle s := by
        rw [parts, parts, hfront, hsegments, List.filter_append]
      have hback : (back.filter fun s => !isIdle s) ≠ [] :=
        List.ne_nil_of_mem (List.mem_filter.2 ⟨hs, by simp [hmeans]⟩)
      obtain ⟨part, more, hmore⟩ := List.exists_cons_of_ne_nil hback
      exact ⟨part, more, by rw [hparts, hmore]⟩

namespace Encloses

variable {q p : String}

theorem isAbsolute_eq (h : Encloses q p) : isAbsolute p = isAbsolute q := by
  obtain ⟨more, hmore⟩ := h.text
  have hne : q.toList ≠ [] := fun hq => h.nonempty (String.toList_eq_nil_iff.1 hq)
  obtain ⟨c, cs, hq⟩ := List.exists_cons_of_ne_nil hne
  rw [isAbsolute, isAbsolute, hmore, hq]
  rfl

theorem size_le (h : Encloses q p) : q.utf8ByteSize ≤ p.utf8ByteSize := by
  obtain ⟨more, hmore⟩ := h.text
  have hp : p = q ++ String.ofList ('/' :: more) := by
    rw [← String.toList_inj, String.toList_append, String.toList_ofList, hmore]
  rw [hp, String.utf8ByteSize_append]
  exact Nat.le_add_right _ _

end Encloses

end TagQuery.Path
