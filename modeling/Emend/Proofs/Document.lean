import Emend.Apply.Hunks
import Emend.Proofs.Lines

/-!
# Documents

A document is what a text says apart from the style of its line endings: its lines, and whether the
last one is ended. It is kept as the ended lines and the rest after them, so that each document
stands for one list of lines: one that is not ended has a last line that is not empty, and an empty
document counts as ended. Written in some style (`Document.text`) it is read back as the lines and
the final break that hunks work on (`ofContent_text`), and these are written as the document again
(`HunkState.writeEndings_content`).
-/

namespace Emend

/-- The lines of a text, of which the last may lack its ending. -/
structure Document where
  /-- The lines that have an ending. -/
  ended : List Text
  /-- The line without an ending, or nothing if all lines have one. -/
  rest : Text
  /-- An ended line holds no line break. -/
  ended_plain : ∀ l ∈ ended, l.IsPlain
  /-- The last line holds no line break. -/
  rest_plain : rest.IsPlain

namespace Document

/-- All lines of a document. -/
def lines (d : Document) : List Text := if d.rest.isEmpty then d.ended else d.ended ++ [d.rest]

/-- Whether the last line of a document has an ending, as it counts as having if there is none. -/
def finalBreak (d : Document) : Bool := d.rest.isEmpty

/-- A document written with one style of line endings. -/
def text (d : Document) (ending : LineEnding) : Text := Text.ended ending.text d.ended ++ d.rest

/-- The style that shows in a document written with a style: without a line break to show another
one it is the line feed. -/
def style (d : Document) (ending : LineEnding) : LineEnding :=
  if d.ended.isEmpty then .lf else ending

/-- A line of a document holds no line feed. -/
theorem ended_lineFeed (d : Document) : ∀ l ∈ d.ended, '\n' ∉ l :=
  fun l hl => (d.ended_plain l hl).1

/-- A document without lines counts as ended. -/
theorem finalBreak_of_lines_eq_nil {d : Document} (h : d.lines = []) : d.finalBreak = true := by
  unfold lines at h
  split at h
  · next hr => exact hr
  · exact absurd h (List.append_ne_nil_of_right_ne_nil _ (List.cons_ne_nil _ _))

/-- Unified endings are line feeds. -/
theorem unifyEndings_text (d : Document) (ending : LineEnding) :
    (d.text ending).unifyEndings = d.text .lf :=
  Text.unifyEndings_ended d.ended_plain d.rest_plain ending

/-- The style of a written document is the one that shows. -/
theorem dominantEnding_text (d : Document) (ending : LineEnding) :
    (d.text ending).dominantEnding = d.style ending :=
  Text.dominantEnding_ended d.ended_plain d.rest_plain ending

/-- The lines of a document that has one are the body lines of its text. -/
theorem bodyLines_text {d : Document} (h : d.lines ≠ []) : (d.text .lf).bodyLines = d.lines := by
  unfold lines at h ⊢
  unfold text
  split at h
  · next hr =>
    rw [if_pos hr, List.isEmpty_iff.mp hr, List.append_nil]
    exact Text.bodyLines_ended d.ended_lineFeed h
  · next hr =>
    rw [if_neg hr]
    exact Text.bodyLines_ended_append d.ended_lineFeed d.rest_plain.1 (mt List.isEmpty_iff.mpr hr)

/-- Whether the text of a document is empty. -/
theorem text_isEmpty (d : Document) : (d.text .lf).isEmpty = d.lines.isEmpty := by
  unfold text lines
  cases d.rest <;> cases d.ended <;> simp [LineEnding.text]

/-- A text ends with a line feed if its document is ended, unless there is none. -/
theorem endsLine_text {d : Document} (h : d.lines ≠ []) : (d.text .lf).endsLine = d.finalBreak := by
  unfold lines at h
  unfold text finalBreak
  split at h
  · next hr =>
    rw [hr, List.isEmpty_iff.mp hr, List.append_nil]
    exact Text.endsLine_ended h
  · next hr =>
    rw [Text.endsLine_append (mt List.isEmpty_iff.mpr hr) d.rest_plain.1]
    exact (Bool.eq_false_iff.mpr hr).symm

/-- Joined lines, with one more ending or without it, are a document with those lines. -/
theorem exists_text_eq_join {ls : List Text} (hplain : ∀ l ∈ ls, l.IsPlain) (hne : ls ≠ [])
    (hlast : ls.getLast hne ≠ []) (ending : LineEnding) (isEnded : Bool) :
    ∃ d : Document, d.lines = ls ∧
      d.text ending = Text.join ending.text ls ++ if isEnded then ending.text else [] := by
  cases isEnded with
  | true =>
    -- All lines are ended.
    refine ⟨⟨ls, [], hplain, List.not_mem_nil, List.not_mem_nil⟩, rfl, ?_⟩
    rw [if_pos rfl, Text.join_append_sep ending.text hne]
    exact List.append_nil _
  | false =>
    -- The last line is the rest, which is there as it is not empty.
    have hfront : ∀ l ∈ ls.dropLast, l.IsPlain := fun l hl => hplain l (List.dropLast_subset ls hl)
    refine ⟨⟨ls.dropLast, ls.getLast hne, hfront, hplain _ (List.getLast_mem hne)⟩, ?_, ?_⟩
    · unfold lines
      rw [if_neg (mt List.isEmpty_iff.mp hlast)]
      exact List.dropLast_concat_getLast hne
    · have hjoin : Text.join ending.text ls =
          Text.ended ending.text ls.dropLast ++ ls.getLast hne := by
        rw [← Text.join_concat, List.dropLast_concat_getLast hne]
      rw [if_neg Bool.false_ne_true, List.append_nil]
      exact hjoin.symm

end Document

/-- Hunks start from the lines of a document and its final break. -/
theorem HunkState.ofContent_text (d : Document) :
    HunkState.ofContent (d.text .lf) = ⟨d.lines, d.finalBreak, 0, 0⟩ := by
  unfold HunkState.ofContent
  rw [d.text_isEmpty]
  by_cases h : d.lines = []
  · rw [h, Document.finalBreak_of_lines_eq_nil h]
    simp
  · rw [Document.bodyLines_text h, Document.endsLine_text h]
    simp [h]

/-- The lines of a document are written as that document, if the final break is that of it. -/
theorem HunkState.writeEndings_content {d : Document} {s : HunkState} (hlines : s.lines = d.lines)
    (hbreak : s.finalBreak = d.finalBreak) (ending : LineEnding) :
    s.content.writeEndings ending.text = d.text ending := by
  -- Before the endings are exchanged the document ends its lines with line feeds.
  have hcontent : s.content = Text.ended ['\n'] d.ended ++ d.rest := by
    unfold HunkState.content
    rw [hlines, hbreak]
    unfold Document.lines Document.finalBreak
    by_cases hr : d.rest = []
    · by_cases he : d.ended = []
      · simp [hr, he, Text.unlines, Text.join]
      · simp [hr, he, Text.unlines, Text.join_append_sep ['\n'] he]
    · simp [hr, Text.unlines, Text.join_concat]
  rw [hcontent]
  exact Text.writeEndings_ended d.ended_plain d.rest_plain ending.text

end Emend
