import Emend.Proofs.BlockGrammar
import Emend.Proofs.Rows

/-!
# Blocks that are read as they were written

Written blocks are read back, each with its number and with its two texts as they are once their
line endings are unified and a final line feed is there (`read_writeAll`). The one thing that a text
may not hold is a row that the reader takes for a marker there.

Everything that is written between two markers is terminated, and so are the markers. Hence unifying
the line endings goes section by section (`unifyEndings_writeAll`), and the rows of what is written
are the markers and the rows of the sections (`rows_write_append`), whatever other row ends the
sections hold.
-/

namespace Emend

namespace Marker

theorem isTerminated_startLine : startLine.IsTerminated := by decide

theorem isTerminated_separatorLine : separatorLine.IsTerminated := by decide

theorem isTerminated_finishLine : finishLine.IsTerminated := by decide

end Marker

namespace EditBlock

/-- Unified endings of a written block are those of its texts. -/
theorem unifyEndings_write_append (search replacement rest : Text) :
    (write search replacement ++ rest).unifyEndings =
      write search.unifyEndings replacement.unifyEndings ++ rest.unifyEndings := by
  have hstart : Marker.startLine.unifyEndings = Marker.startLine := by decide
  have hseparator : Marker.separatorLine.unifyEndings = Marker.separatorLine := by decide
  have hfinish : Marker.finishLine.unifyEndings = Marker.finishLine := by decide
  unfold write
  simp only [List.append_assoc]
  rw [Marker.isTerminated_startLine.unifyEndings_append, hstart,
    search.isTerminated_terminated.unifyEndings_append, search.unifyEndings_terminated,
    Marker.isTerminated_separatorLine.unifyEndings_append, hseparator,
    replacement.isTerminated_terminated.unifyEndings_append, replacement.unifyEndings_terminated,
    Marker.isTerminated_finishLine.unifyEndings_append, hfinish]

/-- Unified endings of written blocks are those of their texts. -/
theorem unifyEndings_writeAll (blocks : List (Text × Text)) :
    (writeAll blocks).unifyEndings =
      writeAll (blocks.map fun b => (b.1.unifyEndings, b.2.unifyEndings)) := by
  induction blocks with
  | nil => rfl
  | cons b blocks ih =>
    rw [writeAll, List.flatMap_cons, ← writeAll, unifyEndings_write_append, ih]
    rfl

/-- The rows of a written block are its markers and the rows of its texts, and nothing after it
changes them. -/
theorem rows_write_append (search replacement rest : Text) :
    (write search replacement ++ rest).rows =
      Marker.startLine :: (search.terminated.rows ++
        Marker.separatorLine :: (replacement.terminated.rows ++
          Marker.finishLine :: rest.rows)) := by
  have hstart : Marker.startLine.rows = [Marker.startLine] := by decide
  have hseparator : Marker.separatorLine.rows = [Marker.separatorLine] := by decide
  have hfinish : Marker.finishLine.rows = [Marker.finishLine] := by decide
  unfold write
  simp only [List.append_assoc]
  rw [Marker.isTerminated_startLine.rows_append, hstart,
    search.isTerminated_terminated.rows_append, Marker.isTerminated_separatorLine.rows_append,
    hseparator, replacement.isTerminated_terminated.rows_append,
    Marker.isTerminated_finishLine.rows_append, hfinish]
  rfl

/-- A final line feed leaves the rows of two texts enclosed. -/
theorem Rows.Enclosed.terminated {search replacement : Text}
    (h : Rows.Enclosed ⟨search.rows, replacement.rows⟩) :
    Rows.Enclosed ⟨search.terminated.rows, replacement.terminated.rows⟩ := by
  -- An empty row is no marker.
  have hempty : Marker.ofLine [] = .other := by decide
  constructor
  · intro row hrow
    rcases Text.rowBody_of_mem_rows_terminated hrow with hbody | ⟨old, hold, hbody⟩
    · rw [Marker.ofRow, hbody, hempty]
    · rw [Marker.ofRow, hbody]
      exact h.search old hold
  · intro row hrow
    rcases Text.rowBody_of_mem_rows_terminated hrow with hbody | ⟨old, hold, hbody⟩
    · rw [Marker.ofRow, hbody, hempty]
      decide
    · rw [Marker.ofRow, hbody]
      exact h.replacement old hold

/-- The rows of written blocks consist of them. -/
theorem consist_writeAll {blocks : List (Text × Text)}
    (h : ∀ b ∈ blocks, Rows.Enclosed ⟨b.1.rows, b.2.rows⟩) :
    Consist (writeAll blocks).rows
      (blocks.map fun b => ⟨b.1.terminated.rows, b.2.terminated.rows⟩) := by
  induction blocks with
  | nil => exact .rest fun row hrow => by cases hrow
  | cons b blocks ih =>
    obtain ⟨hb, hblocks⟩ := List.forall_mem_cons.mp h
    have hstart : Marker.ofRow Marker.startLine = .start := by decide
    have hseparator : Marker.ofRow Marker.separatorLine = .separator := by decide
    have hfinish : Marker.ofRow Marker.finishLine = .finish := by decide
    have hlead : ∀ row ∈ ([] : List Text), Marker.ofRow row ≠ .start :=
      fun row hrow => by cases hrow
    rw [writeAll, List.flatMap_cons, ← writeAll, rows_write_append]
    exact .block hlead hstart hb.terminated hseparator hfinish (ih hblocks)

/-- Written blocks are read back, numbered in order, with their texts as they are once their line
endings are unified and a final line feed is there, if with unified endings no row of a search text
is a marker and no row of a replacement starts or ends a block. -/
theorem read_writeAll {blocks : List (Text × Text)} (hne : blocks ≠ [])
    (h : ∀ b ∈ blocks, Rows.Enclosed ⟨b.1.unifyEndings.rows, b.2.unifyEndings.rows⟩) :
    (read (writeAll blocks)).value = .ok (blocks.mapIdx fun i b =>
      ⟨i, b.1.unifyEndings.terminated, b.2.unifyEndings.terminated⟩) := by
  have henclosed : ∀ b ∈ blocks.map fun b => (b.1.unifyEndings, b.2.unifyEndings),
      Rows.Enclosed ⟨b.1.rows, b.2.rows⟩ := List.forall_mem_map.mpr h
  have hconsist := consist_writeAll henclosed
  rw [← unifyEndings_writeAll, List.map_map] at hconsist
  rw [read_of_consist (mt List.map_eq_nil_iff.mp hne) hconsist]
  refine congrArg Except.ok (List.ext_getElem? fun i => ?_)
  simp only [List.getElem?_mapIdx, List.getElem?_map, Option.map_map, Function.comp_def,
    Text.flatten_rows]

/-- Two blocks that are easily misread: a search text ends in the middle of a line ending, a
replacement holds a separator, another one ends with a line separator, and a vertical tab keeps a
row of the second search text from being a marker. -/
def nearMarkers : List (Text × Text) :=
  [(['a', '\r'], Marker.separatorLine ++ ['b', '\r', '\n', 'c']),
    (Marker.startLine.dropLast ++ ['\x0b'], ['d', '\u2028'])]

/-- The two blocks are read back. -/
theorem read_nearMarkers :
    (nearMarkers ≠ [] ∧
      ∀ b ∈ nearMarkers, Rows.Enclosed ⟨b.1.unifyEndings.rows, b.2.unifyEndings.rows⟩) ∧
    (read (writeAll nearMarkers)).value = .ok
      [⟨0, ['a', '\n'], Marker.separatorLine ++ ['b', '\n', 'c', '\n']⟩,
        ⟨1, Marker.startLine.dropLast ++ ['\x0b', '\n'], ['d', '\u2028', '\n']⟩] := by
  have hne : nearMarkers ≠ [] := by decide
  have henclosed : ∀ b ∈ nearMarkers,
      Rows.Enclosed ⟨b.1.unifyEndings.rows, b.2.unifyEndings.rows⟩ := by decide
  exact ⟨⟨hne, henclosed⟩, (read_writeAll hne henclosed).trans (congrArg Except.ok (by decide))⟩

end EditBlock

end Emend
