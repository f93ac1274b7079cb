import Emend.Proofs.DiffWeight
import Emend.Proofs.Document

/-!
# Diffs as they are read

The text of a written diff is read back as its hunks, numbered from zero and without a warning, just
if no hunk has a removed line, and an added line right after it, that are written like the names of
two files (`ParsedDiff.read_writtenText_iff`).

If there is no such pair, each line of the text stands for itself; the reader takes in the rows of a
hunk one by one (`DiffReader.run_rows`), and closes the hunk at the next header or at the end
(`DiffReader.run_writtenDiff`). If there is one, its two lines count for no line of a hunk, so that
lines are missing from what is read.
-/

namespace Emend

/-- Lines of which no two name two files stand for themselves. -/
theorem DiffLine.ofLines_of_isChain {ls : List Text} (hchain : ls.IsChain Apart) :
    ofLines ls = ls.map ofLine := by
  fun_induction ofLines ls with
  | case1 => rfl
  | case2 line => rfl
  | case3 line next rest hnames ih =>
    have hapart := (List.isChain_cons_cons.mp hchain).1
    rw [Apart, hnames] at hapart
    cases hapart
  | case4 line next rest hnames ih =>
    rw [ih (List.isChain_cons_cons.mp hchain).2]
    rfl

namespace DiffReader

variable {r s : DiffReader}

/-! ## Reading the rows of a hunk -/

/-- The reader some lines later, with a hunk open. -/
def taking (r : DiffReader) (g : Hunk) (lines : Nat) : DiffReader :=
  { r with current := some g, count := r.count + lines }

/-- The hunk that was opened last is the open one. -/
theorem taking_taking (r : DiffReader) (g g' : Hunk) (m n : Nat) :
    (r.taking g m).taking g' n = r.taking g' (m + n) := by
  unfold taking
  dsimp only
  rw [Nat.add_assoc]

/-- A row is taken into the open hunk. -/
theorem run_row {g : Hunk} (hcurrent : r.current = some g) (row : DiffRow)
    (tail : List DiffLine) :
    r.run (.body row.text :: tail) = (r.taking (g.readRow row) 1).run tail := by
  have hstep : r.step (.body row.text) tail = .ok { r with current := some (g.readRow row) } := by
    unfold step
    dsimp only
    rw [hcurrent]
    obtain ⟨kind, text⟩ | _ := row
    · cases kind <;> rfl
    · rfl
  rw [run, hstep]
  rfl

/-- Rows are taken into the open hunk. -/
theorem run_rows (rows : List DiffRow) (tail : List DiffLine) {g : Hunk}
    (hcurrent : r.current = some g) :
    r.run ((rows.map fun row => DiffLine.body row.text) ++ tail) =
      (r.taking (rows.foldl Hunk.readRow g) rows.length).run tail := by
  induction rows generalizing r g with
  | nil =>
    have hsame : r.taking g 0 = r := by
      unfold taking
      rw [← hcurrent]
      rfl
    rw [List.foldl_nil, List.length_nil, hsame]
    rfl
  | cons row rows ih =>
    rw [List.map_cons, List.cons_append, run_row hcurrent, ih rfl, taking_taking, List.foldl_cons,
      List.length_cons, Nat.add_comm 1]

/-- A written hunk is opened by its header and then taken in. -/
theorem run_written {h : Hunk} (hw : h.Writable) (hclose : r.close = .ok s)
    (tail : List DiffLine) :
    r.run (h.written.map DiffLine.ofLine ++ tail) =
      (s.taking (h.readback s.complete.length) h.written.length).run tail := by
  have hopen : s.openHunk h.writtenHeader =
      .ok { s with current := some (h.opened s.complete.length) } := by
    rw [openHunk, hw.ofHeader?_writtenHeader]
  have hheader : ∀ rest, r.run (.hunk h.writtenHeader :: rest) =
      (s.taking (h.opened s.complete.length) 1).run rest := by
    intro rest
    have hstep : r.step (.hunk h.writtenHeader) rest =
        .ok { s with current := some (h.opened s.complete.length) } := by
      unfold step
      dsimp only
      rw [hclose]
      exact hopen
    rw [run, hstep]
    rfl
  rw [h.map_ofLine_written, List.cons_append, hheader, run_rows _ _ rfl, hw.foldl_readRow_rows,
    taking_taking, Hunk.written, List.length_cons, List.length_map, Nat.add_comm 1]

/-- A written diff is taken in hunk by hunk, the last one at its end. -/
theorem run_writtenDiff {hunks : List Hunk} (hw : ∀ h ∈ hunks, h.Writable)
    (hclose : r.close = .ok s) :
    r.run ((writtenDiff hunks).map DiffLine.ofLine) =
      ({ s with
          complete := s.complete ++ hunks.mapIdx fun i h => h.readback (s.complete.length + i)
          count := s.count + (writtenDiff hunks).length },
        if s.complete.isEmpty && hunks.isEmpty then some ⟨.noHunks, none⟩ else none) := by
  -- The reader that closes the hunk before is the one from which the next one is read.
  induction hunks generalizing r s with
  | nil =>
    show r.run [] = _
    rw [run, hclose]
    simp [writtenDiff]
  | cons h hunks ih =>
    have hh := hw h List.mem_cons_self
    have hfinish := hh.finish_readback s.complete.length
    have hclosed : (s.taking (h.readback s.complete.length) h.written.length).close = .ok { s with
        complete := s.complete ++ [h.readback s.complete.length]
        count := s.count + h.written.length } := by
      unfold close taking
      dsimp only
      rw [hfinish]
      dsimp only
      rw [List.append_nil, current_of_close hclose]
    rw [writtenDiff, List.flatMap_cons, ← writtenDiff, List.map_append, run_written hh hclose,
      ih (fun g hg => hw g (List.mem_cons_of_mem h hg)) hclosed]
    simp [List.mapIdx_cons, Nat.add_assoc, Nat.add_comm 1]

end DiffReader

/-! ## Reading a written diff -/

/-- The lines of the text of a written diff are those that were written. -/
theorem DiffLine.ofEdit_writtenText {hunks : List Hunk} (hne : hunks ≠ [])
    (hw : ∀ h ∈ hunks, h.Writable) (ending : LineEnding) (isEnded : Bool) :
    ofEdit (writtenText hunks ending isEnded) = ofLines (writtenDiff hunks) := by
  have hplain : ∀ t ∈ writtenDiff hunks, t.IsPlain := by
    intro t ht
    obtain ⟨h, hh, ht⟩ := List.mem_flatMap.mp ht
    exact Hunk.isPlain_of_mem_written (hw h hh).lines_plain ht
  have hwritten : writtenDiff hunks ≠ [] := by
    obtain ⟨h, tail, rfl⟩ := List.exists_cons_of_ne_nil hne
    exact List.cons_ne_nil _ _
  have hlast : (writtenDiff hunks).getLast hwritten ≠ [] := by
    obtain ⟨h, -, ht⟩ := List.mem_flatMap.mp (List.getLast_mem hwritten)
    exact Hunk.ne_nil_of_mem_written ht
  obtain ⟨d, hlines, htext⟩ :=
    Document.exists_text_eq_join hplain hwritten hlast ending isEnded
  have hd : d.lines ≠ [] := hlines ▸ hwritten
  rw [writtenText, ← htext, ofEdit, d.unifyEndings_text, Document.bodyLines_text hd, hlines]

namespace ParsedDiff

/-- The hunks of a text that is read have no more lines than the text weighs. -/
theorem length_hunks_le {edit : Text} {diff : ParsedDiff} (hread : (read edit).value = .ok diff) :
    (diff.hunks.map (·.lines.length)).sum ≤ DiffLine.weightOf (DiffLine.ofEdit edit) := by
  calc (diff.hunks.map (·.lines.length)).sum
      ≤ (DiffReader.initial.run (DiffLine.ofEdit edit)).1.weight := by
        rw [hunks_of_read hread]
        exact Nat.le_add_right _ _
    _ ≤ DiffReader.initial.weight + DiffLine.weightOf (DiffLine.ofEdit edit) :=
        DiffReader.weight_run_le _ _
    _ = DiffLine.weightOf (DiffLine.ofEdit edit) := Nat.zero_add _

/-- Hunks that are read back have the lines that were written. -/
theorem length_readback (hunks : List Hunk) :
    ((hunks.mapIdx fun i h => h.readback i).map (·.lines.length)).sum =
      (hunks.map (·.lines.length)).sum := by
  have hlengths : (fun x : Hunk × Nat => (x.1.readback x.2).lines.length) =
      (fun h : Hunk => h.lines.length) ∘ Prod.fst := rfl
  rw [List.mapIdx_eq_zipIdx_map, List.map_map]
  show (hunks.zipIdx.map fun x => (x.1.readback x.2).lines.length).sum = _
  rw [hlengths, ← List.map_map, List.zipIdx_map_fst]

/-- A text that is read to its end gives what the reader has then. -/
theorem read_of_run {edit : Text} {r : DiffReader}
    (hrun : DiffReader.initial.run (DiffLine.ofEdit edit) = (r, none)) :
    (read edit).value = .ok r.parsed := by
  unfold read
  rw [hrun]
  rfl

/-- The text of a written diff is read as the hunks that were written, in order and without a
warning, just if none of them has a removed line that starts with two hyphens and a space directly
before an added line that starts with two pluses and a space. -/
theorem read_writtenText_iff {hunks : List Hunk} (hne : hunks ≠ []) (hw : ∀ h ∈ hunks, h.Writable)
    (ending : LineEnding) (isEnded : Bool) :
    (∃ diff, (read (writtenText hunks ending isEnded)).value = .ok diff ∧
      diff.hunks = hunks.mapIdx (fun i h => h.readback i) ∧ diff.warnings = []) ↔
      ∀ h ∈ hunks, ¬ h.HasFilePair := by
  have hlines := DiffLine.ofEdit_writtenText hne hw ending isEnded
  rw [← isChain_writtenDiff_iff]
  constructor
  · rintro ⟨diff, hread, hhunks, -⟩
    by_contra hpair
    -- The hunks that were read have as many lines as the written ones, but the text weighs less.
    have hlt := DiffLine.weightOf_ofLines_lt hpair
    have hle := length_hunks_le hread
    rw [weightOf_writtenDiff] at hlt
    rw [hhunks, length_readback, hlines] at hle
    omega
  · -- Every line stands for itself, so that the reader ends with the hunks and without a fault.
    intro hchain
    have hclose : DiffReader.initial.close = .ok .initial := rfl
    have hrun := DiffReader.run_writtenDiff hw hclose
    rw [← DiffLine.ofLines_of_isChain hchain, ← hlines, List.isEmpty_eq_false_iff.mpr hne,
      Bool.and_false, if_neg Bool.false_ne_true] at hrun
    refine ⟨_, read_of_run hrun, ?_, rfl⟩
    show [] ++ hunks.mapIdx (fun i h => h.readback (0 + i)) = _
    simp only [List.nil_append, Nat.zero_add]

end ParsedDiff

/-- Two hunks, the second with two lines that would name two files if the first of them, the last
one of the old side, had a line feed. -/
def namesApart : List Hunk :=
  [⟨0, some 1, 1, some 1, 2, [⟨.context, ['a']⟩, ⟨.add, []⟩], [], false, false⟩,
    ⟨1, some 8, 1, some 9, 1, [⟨.remove, ['-', '-', ' ', 'x']⟩, ⟨.add, ['+', '+', ' ', 'y']⟩], [],
      true, true⟩]

/-- Both hunks can be written. -/
theorem namesApart_writable : ∀ h ∈ namesApart, h.Writable := by
  have hfirst : (namesApart.head (by decide)).Writable :=
    ⟨⟨1, 1, rfl, rfl⟩, rfl, rfl, by decide, by decide, fun s => by cases s <;> exact nofun⟩
  have hlast : (namesApart.getLast (by decide)).Writable := by
    refine ⟨⟨8, 9, rfl, rfl⟩, rfl, rfl, by decide, by decide, fun s _ => ?_⟩
    cases s
    · exact ⟨⟨.remove, ['-', '-', ' ', 'x']⟩, rfl, nofun⟩
    · exact ⟨⟨.add, ['+', '+', ' ', 'y']⟩, rfl, nofun⟩
  intro h hh
  rcases List.mem_cons.mp hh with rfl | hh
  · exact hfirst
  · obtain rfl := List.mem_singleton.mp hh
    exact hlast

/-- The row between the two lines keeps them apart: both hunks are read back. -/
theorem ParsedDiff.read_namesApart :
    (namesApart ≠ [] ∧ ∀ h ∈ namesApart, h.Writable) ∧
    ∃ diff, (read (writtenText namesApart .crlf false)).value = .ok diff ∧
      diff.hunks = namesApart.mapIdx (fun i h => h.readback i) ∧ diff.warnings = [] := by
  have hne : namesApart ≠ [] := by decide
  have hnone : ∀ h ∈ namesApart, ¬ h.HasFilePair :=
    (isChain_writtenDiff_iff namesApart).mp (by decide)
  exact ⟨⟨hne, namesApart_writable⟩,
    (ParsedDiff.read_writtenText_iff hne namesApart_writable .crlf false).mpr hnone⟩

end Emend
