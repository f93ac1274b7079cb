import Emend.Edit.Dialect
import Emend.Proofs.BlockGrammar
import Emend.Proofs.Rows
import Mathlib.Data.List.Chain

/-!
# Marker rows that begin lines

The dialect of an edit text is told from its lines, while blocks are read from its rows. The two
differ where a row ends with another character than a line feed, since the row after it begins no
line. A marker holds no row end, so that the lines that are markers are exactly the marker rows that
begin a line (`any_lines_iff`), and a text is detected as one of blocks just if a start row and an
end row in it do (`detect_eq_blocks_iff`).

A text that the reader of blocks accepts has such rows, and it is detected as one of blocks if all of
them begin a line (`detect_of_read`). Where one does not it may be taken for a diff
(`detect_namesAfterTab`).
-/

namespace Emend

namespace Marker

/-- The characters of a run are the repeated one, those of the word, spaces and tabs. -/
theorem mem_of_isRun {c : Char} {word line : Text} (h : isRun c word line = true) :
    ∀ x ∈ line, x = c ∨ x ∈ word ∨ Text.isIndent x = true := by
  unfold isRun at h
  simp only [Bool.and_eq_true] at h
  cases hafter : Text.after word (line.dropWhile (· == c)) with
  | none =>
    rw [hafter] at h
    exact absurd h.2 Bool.false_ne_true
  | some rest =>
    have hindent : rest.all Text.isIndent = true := by
      rw [hafter] at h
      exact h.2
    intro x hx
    rw [← List.takeWhile_append_dropWhile (p := (· == c)) (l := line),
      Text.after_eq_some_iff.mp hafter, List.mem_append, List.mem_append] at hx
    rcases hx with hx | hx | hx
    · exact .inl (beq_iff_eq.mp (List.all_eq_true.mp List.all_takeWhile x hx))
    · exact .inr (.inl hx)
    · exact .inr (.inr (List.all_eq_true.mp hindent x hx))

/-- No row end stands in a marker. -/
theorem isRowEnd_of_ofLine {line : Text} (h : ofLine line ≠ .other) :
    ∀ c ∈ line, Text.isRowEnd c = false := by
  obtain ⟨first, word, hrun, hplain⟩ : ∃ first word, isRun first word line = true ∧
      (first :: word).any Text.isRowEnd = false := by
    unfold ofLine at h
    split at h
    case isTrue hrun => exact ⟨_, _, hrun, by decide⟩
    split at h
    case isTrue hrun => exact ⟨_, _, hrun, by decide⟩
    split at h
    case isTrue hrun => exact ⟨_, _, hrun, by decide⟩
    exact absurd rfl h
  rw [List.any_eq_false] at hplain
  intro c hc
  rcases mem_of_isRun hrun c hc with rfl | hc | hc
  · exact Bool.eq_false_iff.mpr (hplain c List.mem_cons_self)
  · exact Bool.eq_false_iff.mpr (hplain c (List.mem_cons_of_mem first hc))
  · rw [Text.isIndent, Bool.or_eq_true, beq_iff_eq, beq_iff_eq] at hc
    rcases hc with rfl | rfl <;> decide

/-- An empty line is no marker. -/
theorem ne_nil_of_ofLine {line : Text} (h : ofLine line ≠ .other) : line ≠ [] := by
  rintro rfl
  exact absurd h (by decide)

end Marker

namespace Dialect

/-- Some row of the kind begins a line: what stands before it is terminated. -/
def BeginsLine (kind : Marker) (rows : List Text) : Prop :=
  ∃ front row rest, rows = front ++ row :: rest ∧ Marker.ofRow row = kind ∧
    Text.IsTerminated front.flatten

/-- Each row that starts or ends a block is the first one, or it follows a row that ends with a line
feed. -/
def MarkersBeginLines (rows : List Text) : Prop :=
  rows.IsChain fun row next =>
    (Marker.ofRow next = .start ∨ Marker.ofRow next = .finish) → row.endsLine = true

instance (rows : List Text) : Decidable (MarkersBeginLines rows) :=
  inferInstanceAs (Decidable (List.IsChain _ rows))

/-- A line that is a marker is a row that begins a line. -/
theorem beginsLine_of_mem_lines {t line : Text} (hline : line ∈ t.lines)
    (hmarker : Marker.ofLine line ≠ .other) : BeginsLine (Marker.ofLine line) t.rows := by
  have hplain := Marker.isRowEnd_of_ofLine hmarker
  obtain ⟨front, rest, rfl, hfront, hrest⟩ := Text.exists_of_mem_lines hline
  rw [hfront.rows_append]
  have hflat : Text.IsTerminated front.rows.flatten := by
    rw [Text.flatten_rows]
    exact hfront
  cases rest with
  | nil =>
    refine ⟨front.rows, line, [], ?_, ?_, hflat⟩
    · rw [List.append_nil, Text.rows_of_forall (Marker.ne_nil_of_ofLine hmarker) hplain]
    · rw [Marker.ofRow, Text.rowBody_of_forall hplain]
  | cons c rest =>
    obtain rfl : c = '\n' := hrest c rfl
    refine ⟨front.rows, line ++ ['\n'], Text.rows rest, ?_, ?_, hflat⟩
    · rw [Text.rows_append_cons hplain rfl]
    · rw [Marker.ofRow, Text.rowBody_concat]

/-- A marker row that begins a line is a line without the line feed after it. -/
theorem rowBody_mem_lines {t row : Text} {front rest : List Text}
    (hrows : t.rows = front ++ row :: rest) (hfront : Text.IsTerminated front.flatten)
    (hmarker : Marker.ofRow row ≠ .other) : row.rowBody ∈ t.lines := by
  have hplain := Marker.isRowEnd_of_ofLine hmarker
  have hfeed : '\n' ∉ row.rowBody := fun hmem => absurd (hplain '\n' hmem) (by decide)
  have ht : t = front.flatten ++ (row ++ rest.flatten) := by
    rw [← Text.flatten_rows t, hrows, List.flatten_append, List.flatten_cons]
  rw [ht]
  refine hfront.mem_lines_append ?_
  cases hends : row.endsLine with
  | true =>
    obtain ⟨body, rfl⟩ := Text.exists_of_endsLine hends
    rw [Text.rowBody_concat] at hfeed ⊢
    rw [List.append_assoc, List.singleton_append, Text.lines,
      Text.cut_append_cons (Text.beq_lineFeed_eq_false hfeed) rfl]
    exact List.mem_cons_self
  | false =>
    -- Without a row end the row is the last one.
    rw [Text.rowBody_of_not_endsLine hends] at hplain hfeed ⊢
    have hlast : rest = [] := by
      cases rest with
      | nil => rfl
      | cons next rest =>
        have hmem : row ∈ t.rows.dropLast := by
          rw [hrows, List.dropLast_append_of_ne_nil (List.cons_ne_nil _ _), List.dropLast_cons_cons]
          exact List.mem_append_right _ List.mem_cons_self
        obtain ⟨c, hc, hend⟩ := Text.exists_isRowEnd_of_mem_dropLast hmem
        exact absurd hend (Bool.eq_false_iff.mp (hplain c hc))
    rw [hlast, List.flatten_nil, List.append_nil, Text.lines,
      Text.cut_eq_singleton (Text.beq_lineFeed_eq_false hfeed)]
    exact List.mem_singleton_self row

/-- A text has a line that is a marker just if a row of the kind begins a line. -/
theorem any_lines_iff {kind : Marker} (hkind : kind ≠ .other) (t : Text) :
    t.lines.any (Marker.ofLine · == kind) = true ↔ BeginsLine kind t.rows := by
  rw [List.any_eq_true]
  constructor
  · rintro ⟨line, hline, hmarker⟩
    obtain rfl := beq_iff_eq.mp hmarker
    exact beginsLine_of_mem_lines hline hkind
  · rintro ⟨front, row, rest, hrows, rfl, hfront⟩
    exact ⟨row.rowBody, rowBody_mem_lines hrows hfront hkind, beq_self_eq_true _⟩

/-- A text is detected as one of blocks just if a start row and an end row begin a line. -/
theorem detect_eq_blocks_iff (edit : Text) :
    detect edit = .ok .blocks ↔
      BeginsLine .start edit.unifyEndings.rows ∧ BeginsLine .finish edit.unifyEndings.rows := by
  have hstart : Marker.start ≠ .other := by decide
  have hfinish : Marker.finish ≠ .other := by decide
  have hlooks : looksLikeBlocks edit = true ↔
      BeginsLine .start edit.unifyEndings.rows ∧ BeginsLine .finish edit.unifyEndings.rows := by
    rw [looksLikeBlocks, Bool.and_eq_true, any_lines_iff hstart, any_lines_iff hfinish]
  rw [← hlooks, detect]
  cases looksLikeBlocks edit with
  | true => simp
  | false => cases looksLikeHunks edit <;> simp

/-- A marker row begins a line if all that start or end a block do. -/
theorem MarkersBeginLines.beginsLine {rows : List Text} (h : MarkersBeginLines rows) {row : Text}
    (hrow : row ∈ rows) (hmarker : Marker.ofRow row = .start ∨ Marker.ofRow row = .finish) :
    BeginsLine (Marker.ofRow row) rows := by
  obtain ⟨front, rest, rfl⟩ := List.append_of_mem hrow
  refine ⟨front, row, rest, rfl, rfl, ?_⟩
  rcases List.eq_nil_or_concat front with rfl | ⟨init, last, rfl⟩
  · exact .inl rfl
  · rw [List.concat_eq_append] at h ⊢
    have hlast : last.endsLine = true :=
      (List.isChain_append.mp h).2.2 last List.getLast?_concat row rfl hmarker
    obtain ⟨body, rfl⟩ := Text.exists_of_endsLine hlast
    refine .of_endsLine ?_
    rw [List.flatten_append, List.flatten_singleton, ← List.append_assoc, Text.endsLine_concat]
    rfl

/-- Rows that consist of blocks hold a start row and an end row, if there is a block. -/
theorem exists_markers_of_consist {rows : List Text} {blocks : List EditBlock.Rows}
    (h : EditBlock.Consist rows blocks) (hne : blocks ≠ []) :
    (∃ row ∈ rows, Marker.ofRow row = .start) ∧ ∃ row ∈ rows, Marker.ofRow row = .finish := by
  cases h with
  | rest _ => exact absurd rfl hne
  | block _ hstart _ _ hfinish _ => exact ⟨⟨_, by simp, hstart⟩, ⟨_, by simp, hfinish⟩⟩

/-- A text that the reader of blocks accepts is detected as one of blocks just if a start row and an
end row in it begin a line. That is so if each row that starts or ends a block does. -/
theorem detect_of_read {edit : Text} {blocks : List EditBlock}
    (hread : (EditBlock.read edit).value = .ok blocks) :
    (detect edit = .ok .blocks ↔
      BeginsLine .start edit.unifyEndings.rows ∧ BeginsLine .finish edit.unifyEndings.rows) ∧
    (MarkersBeginLines edit.unifyEndings.rows → detect edit = .ok .blocks) := by
  refine ⟨detect_eq_blocks_iff edit, fun hlines => ?_⟩
  obtain ⟨sections, hne, hconsist, -⟩ := EditBlock.exists_consist_of_read hread
  obtain ⟨⟨start, hmem, hstart⟩, finish, hmem', hfinish⟩ := exists_markers_of_consist hconsist hne
  rw [detect_eq_blocks_iff]
  exact ⟨hstart ▸ hlines.beginsLine hmem (.inl hstart),
    hfinish ▸ hlines.beginsLine hmem' (.inr hfinish)⟩

/-- A block on the names of two files, after a row of prose that holds a form feed. -/
def namesAfterProse : Text :=
  ['\x0c', 'p', '\r', '\n'] ++ EditBlock.write "--- a\x0b".toList "+++ b".toList

/-- The form feed and the vertical tab stand before no marker, and the block is detected. -/
theorem detect_namesAfterProse :
    ((EditBlock.read namesAfterProse).value =
        .ok [⟨0, "--- a\x0b\n".toList, "+++ b\n".toList⟩] ∧
      MarkersBeginLines namesAfterProse.unifyEndings.rows) ∧
    detect namesAfterProse = .ok .blocks := by
  have hread : (EditBlock.read namesAfterProse).value =
      .ok [⟨0, "--- a\x0b\n".toList, "+++ b\n".toList⟩] := rfl
  have hlines : MarkersBeginLines namesAfterProse.unifyEndings.rows := by decide
  exact ⟨⟨hread, hlines⟩, (detect_of_read hread).2 hlines⟩

/-- A block on the names of two files, right after a vertical tab. -/
def namesAfterTab : Text := '\x0b' :: EditBlock.write "--- a".toList "+++ b".toList

/-- The vertical tab ends a row but no line: the block is read, and the text is detected as one of
hunks. -/
theorem detect_namesAfterTab :
    (EditBlock.read namesAfterTab).value = .ok [⟨0, "--- a\n".toList, "+++ b\n".toList⟩] ∧
    detect namesAfterTab = .ok .hunks :=
  ⟨rfl, rfl⟩

end Dialect

end Emend
