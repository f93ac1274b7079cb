import Emend.Apply.Hunks

/-!
# Hunks at the place they declare

Where the old side of a hunk stands exactly at the expected line, the anchor search ends there
(`Anchor.find_of_declared`): the loose shortcut is only for lines that differ, the expected line
comes first at the exact level, and no other line is as near, so that there is no tie. Putting the
hunk there replaces its old lines by its new ones and nothing else (`Hunk.put_of_declared`), since
context is kept from equal lines and added lines are not moved at an exact place.
-/

namespace Emend

/-- Past the first one, the places around a start are other places. -/
theorem ne_of_mem_middleOut_tail {start last place : Nat}
    (h : place ∈ (middleOut start last).tail) : place ≠ start := by
  -- Such a place is some steps below the start or above it.
  unfold middleOut at h
  rw [List.tail_cons, List.mem_flatMap] at h
  obtain ⟨i, -, hi⟩ := h
  rcases List.mem_append.mp hi with hi | hi
  · split at hi
    · rw [List.mem_singleton] at hi
      omega
    · cases hi
  · split at hi
    · rw [List.mem_singleton] at hi
      omega
    · cases hi

/-- The lines of an old side fit themselves, whatever follows them. -/
theorem mismatches?_exact_self (side : List HunkLine) (back : List Text) :
    mismatches? AnchorLevel.exact.fits side (side.map HunkLine.text ++ back) = some 0 := by
  induction side with
  | nil => rfl
  | cons l side ih =>
    have hfits : AnchorLevel.exact.fits l.text l.text = true := beq_self_eq_true l.text
    rw [List.map_cons, List.cons_append, mismatches?, if_pos hfits]
    exact ih

namespace Anchor

/-- If the place nearest to the expected line is allowed it is the first of the allowed places, and
the only one that is so near. -/
theorem places_of_misfits {lines : List Text} {side : List HunkLine} {expected : Int}
    {level : AnchorLevel} {place bad : Nat}
    (hplace : clampPlace expected (lines.length - side.length) = place)
    (h : misfits? lines side level place = some bad) :
    ∃ others, places lines side expected level = (place, bad) :: others ∧
      ∀ other ∈ others, other.1 ≠ place := by
  let allowed := fun p => (misfits? lines side level p).map (p, ·)
  have hplaces : places lines side expected level =
      (middleOut place (lines.length - side.length)).filterMap allowed := by
    rw [← hplace]
    rfl
  have hfirst : allowed place = some (place, bad) := congrArg (Option.map (place, ·)) h
  refine ⟨(middleOut place (lines.length - side.length)).tail.filterMap allowed, ?_, ?_⟩
  · rw [hplaces, middleOut, List.filterMap_cons, hfirst]
    rfl
  · intro other hother
    obtain ⟨p, hp, hmap⟩ := List.mem_filterMap.mp hother
    obtain ⟨n, -, rfl⟩ := Option.map_eq_some_iff.mp hmap
    exact ne_of_mem_middleOut_tail hp

/-- At the exact level the expected line itself is the declared place. -/
theorem nearestAt_of_declared {lines : List Text} {side : List HunkLine} {place : Nat}
    (hle : place + side.length ≤ lines.length) (h : misfits? lines side .exact place = some 0) :
    (nearestAt lines side place .exact).value =
      some ⟨place, .declaredPosition, confidenceOf 0 side.length, none⟩ := by
  have hplace : clampPlace place (lines.length - side.length) = place := by
    unfold clampPlace
    omega
  obtain ⟨others, hplaces, hothers⟩ := places_of_misfits hplace h
  unfold nearestAt
  rw [hplaces]
  cases others with
  | nil => simp [hplace]
  | cons other others =>
    -- The next place is further away, so that there is no tie.
    have hne : other.1 ≠ place := hothers other List.mem_cons_self
    have hfar : distance place other.1 ≠ distance place place := by
      unfold distance
      omega
    simp [hplace, hfar]

/-- A hunk whose old side stands at the expected line is placed there, as declared. -/
theorem find_of_declared (hunk : Hunk) (front back : List Text) (maxFuzz : Nat) :
    ∃ confidence, (find (front ++ hunk.oldLines ++ back) hunk front.length maxFuzz).value =
      some ⟨front.length, .declaredPosition, confidence, none⟩ := by
  have hsize : hunk.oldLines.length = hunk.oldSide.length := List.length_map _
  have hlength : (front ++ hunk.oldLines ++ back).length =
      front.length + hunk.oldSide.length + back.length := by
    rw [List.length_append, List.length_append, hsize]
  have hregion : (front ++ hunk.oldLines ++ back).drop front.length =
      hunk.oldSide.map HunkLine.text ++ back := by
    rw [List.append_assoc, List.drop_left]
    rfl
  have hexact := mismatches?_exact_self hunk.oldSide back
  -- A hunk without old lines is put where it is expected; any other one is found there.
  unfold find
  dsimp only
  by_cases hempty : hunk.oldSide.isEmpty = true
  · have hplace : clampPlace front.length (front ++ hunk.oldLines ++ back).length =
        front.length := by
      unfold clampPlace
      omega
    rw [if_pos hempty, hplace]
    exact ⟨1, rfl⟩
  · have hpos : 0 < hunk.oldSide.length :=
      List.length_pos_iff.mpr (mt List.isEmpty_iff.mpr hempty)
    have hplace : clampPlace front.length
        ((front ++ hunk.oldLines ++ back).length - hunk.oldSide.length) = front.length := by
      unfold clampPlace
      omega
    have hmisfits : misfits? (front ++ hunk.oldLines ++ back) hunk.oldSide .exact front.length =
        some 0 := by
      unfold misfits?
      rw [hregion, hexact]
      simp [hpos]
    -- The lines are the same, so that the loose shortcut is not taken.
    have hnearest := nearestAt_of_declared (by omega) hmisfits
    rw [if_neg hempty, if_neg (by omega), hplace, hregion, if_neg fun h => h.1 hexact,
      AnchorLevel.levels, firstLevel, Traced.value_bind, hnearest]
    exact ⟨_, rfl⟩

end Anchor

namespace Hunk

/-- Rebuilding the old lines of a hunk without moving its added lines gives its new lines. -/
theorem rebuildWith_id (ls : List HunkLine) :
    rebuildWith id ls ((ls.filter (·.kind != .add)).map HunkLine.text) =
      (ls.filter (·.kind != .remove)).map HunkLine.text := by
  induction ls with
  | nil => rfl
  | cons l ls ih =>
    obtain ⟨kind, text⟩ := l
    cases kind with
    | context => exact congrArg (text :: ·) ih
    | add => exact congrArg (text :: ·) ih
    | remove => exact ih

/-- At a place that is not loose a hunk turns its old lines into its new ones. -/
theorem rebuild_oldLines (h : Hunk) : h.rebuild h.oldLines false = h.newLines := by
  have hid : h.inserted h.oldLines false = id := rfl
  rw [rebuild, hid]
  exact rebuildWith_id h.lines

/-- The old side of a hunk that stands between other lines is replaced by its new side. -/
theorem put_of_declared {h : Hunk} {s : HunkState} (a : Anchor) {front back : List Text}
    (hlines : s.lines = front ++ h.oldLines ++ back) (hposition : a.position = front.length)
    (hlevel : a.level = .declaredPosition) :
    h.put s a =
      ⟨front ++ h.newLines ++ back,
        h.finalBreakAfter (front.length + h.newLines.length)
          (front.length + h.newLines.length + back.length) s.finalBreak,
        if h.isNumbered then
          ((front.length : Int) - h.expectedLine 0 0) + (h.newLines.length - h.oldLines.length)
        else s.offset,
        front.length + h.newLines.length⟩ := by
  -- The lines of the document split at the hunk.
  have hregion : (s.lines.drop front.length).take h.oldLines.length = h.oldLines := by
    rw [hlines, List.append_assoc, List.drop_left, List.take_left]
  have hfront : s.lines.take front.length = front := by
    rw [hlines, List.append_assoc, List.take_left]
  have hback : s.lines.drop (front.length + h.oldLines.length) = back := by
    rw [hlines, ← List.length_append, List.drop_left]
  have htotal : (front ++ h.newLines ++ back).length =
      front.length + h.newLines.length + back.length := by
    rw [List.length_append, List.length_append]
  unfold put
  dsimp only
  rw [hposition, hlevel, hregion, hfront, hback]
  have hloose : AnchorLevel.declaredPosition.isLoose = false := rfl
  rw [hloose, rebuild_oldLines, htotal]

end Hunk

end Emend
