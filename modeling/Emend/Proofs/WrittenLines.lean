import Emend.Proofs.Characters
import Emend.Proofs.FittedWords
import Emend.Proofs.Rows

/-!
# Written lines

The text of some lines has a line feed after each of them, or after all but the last one
(`Text.written`). Every text is that of its body lines (`Text.written_bodyLines`), and some of these
stand in it between the others (`Text.written_append_append`). Lines can be counted in their text
(`Text.length_eq_of_written_eq`), and moving them to another indentation goes line by line
(`Text.moveLines_written`), which leaves all but the indentation of each of them
(`Text.afterIndent_moveIndent`).
-/

namespace Emend

namespace Text

/-! ## Lines and their text -/

/-- A line without the spaces and tabs that it starts with. -/
def afterIndent (line : Text) : Text := line.dropWhile isIndent

/-- The lines of a text, of which an empty one has none. -/
def wholeLines (t : Text) : List Text := if t.isEmpty then [] else t.bodyLines

/-- The text of some lines, with a line feed after the last one if it is ended. -/
def written (isEnded : Bool) (ls : List Text) : Text :=
  if isEnded then ended ['\n'] ls else unlines ls

variable {ls before after : List Text} {isEnded : Bool} {inner outer line t : Text}

theorem written_nil (isEnded : Bool) : written isEnded [] = [] := by
  cases isEnded <;> rfl

/-- The text of lines is that of the lines with a line feed between each two, and a last one if they
are ended. -/
theorem written_eq_unlines (isEnded : Bool) (hne : ls ≠ []) :
    written isEnded ls = unlines ls ++ if isEnded then ['\n'] else [] := by
  cases isEnded with
  | true => exact (join_append_sep ['\n'] hne).symm
  | false => exact (List.append_nil _).symm

/-- Lines with others after them have a line feed after each of them. -/
theorem written_append (isEnded : Bool) (before : List Text) (hne : after ≠ []) :
    written isEnded (before ++ after) = ended ['\n'] before ++ written isEnded after := by
  cases isEnded with
  | true => exact List.flatMap_append
  | false => exact join_append ['\n'] before hne

/-- A line that is ended, or that others follow, has a line feed after it. -/
theorem written_cons (h : isEnded = true ∨ ls ≠ []) (line : Text) :
    written isEnded (line :: ls) = line ++ '\n' :: written isEnded ls := by
  cases isEnded with
  | true => exact List.append_assoc line ['\n'] (ended ['\n'] ls)
  | false =>
    obtain ⟨next, ls, rfl⟩ := List.exists_cons_of_ne_nil (h.resolve_left Bool.false_ne_true)
    exact List.append_assoc line ['\n'] (unlines (next :: ls))

/-- The body lines of a text are lines of it without line feeds. -/
theorem lineFeed_notMem_of_mem_bodyLines (h : line ∈ bodyLines t) : '\n' ∉ line := fun hc =>
  absurd (forall_of_mem_cut (mem_lines_of_mem_bodyLines h) '\n' hc) (by decide)

/-- The lines of a text hold no line feeds. -/
theorem lineFeed_notMem_of_mem_wholeLines (h : line ∈ wholeLines t) : '\n' ∉ line := by
  unfold wholeLines at h
  split at h
  · cases h
  · exact lineFeed_notMem_of_mem_bodyLines h

/-- A text has a body line, be it an empty one. -/
theorem bodyLines_ne_nil (t : Text) : t.bodyLines ≠ [] := by
  unfold bodyLines
  split
  · next h =>
    obtain ⟨s, rfl⟩ := exists_of_endsLine h
    have hlines : lines (s ++ ['\n']) = lines s ++ [[]] := cut_append_separator rfl s []
    rw [hlines, List.dropLast_concat]
    exact cut_ne_nil _ s
  · exact cut_ne_nil _ t

/-- A text is that of its body lines. -/
theorem written_bodyLines (t : Text) : written t.endsLine t.bodyLines = t := by
  rw [written_eq_unlines _ t.bodyLines_ne_nil, unlines_bodyLines]

/-- Some lines among others have a line feed after them, unless they are the last ones and those are
not ended. -/
theorem written_append_append (isEnded : Bool) (before after : List Text) (hne : ls ≠ []) :
    written isEnded (before ++ (ls ++ after)) = ended ['\n'] before ++
      (written (isEnded || !after.isEmpty) ls ++ written isEnded after) := by
  rw [written_append _ _ (List.append_ne_nil_of_left_ne_nil hne _)]
  by_cases hafter : after = []
  · rw [hafter, List.append_nil, written_nil, List.append_nil, List.isEmpty_nil, Bool.not_true,
      Bool.or_false]
  · rw [written_append _ _ hafter, List.isEmpty_eq_false_iff.mpr hafter, Bool.not_false,
      Bool.or_true]
    rfl

/-- Body lines of a text have a line feed after them, unless they are the last ones of a text that
does not end with one. -/
theorem endsLine_written_of_bodyLines (h : t.bodyLines = before ++ (ls ++ after)) (hne : ls ≠ []) :
    (written (t.endsLine || !after.isEmpty) ls).endsLine = (t.endsLine || !after.isEmpty) := by
  cases hend : t.endsLine || !after.isEmpty with
  | true => exact endsLine_ended hne
  | false =>
    -- Lines without a line feed after them end the text, if they are not one empty line.
    by_cases hnil : written false ls = []
    · rw [hnil]
      rfl
    · obtain ⟨hended, hafter⟩ := Bool.or_eq_false_iff.mp hend
      rw [Bool.not_eq_false', List.isEmpty_iff] at hafter
      have ht := written_bodyLines t
      rw [h, written_append_append _ _ _ hne, hafter, hended, written_nil, List.append_nil] at ht
      rw [← endsLine_append_of_ne_nil (ended ['\n'] before) hnil]
      exact (congrArg endsLine ht).trans hended

/-- A text that ends a line is that of its body lines, each with a line feed. -/
theorem ended_bodyLines (h : t.endsLine = true) : ended ['\n'] t.bodyLines = t := by
  conv_rhs => rw [← written_bodyLines t, written, if_pos h]

/-- A text that is not empty has its body lines. -/
theorem wholeLines_of_ne_nil (h : t ≠ []) : t.wholeLines = t.bodyLines := by
  rw [wholeLines, List.isEmpty_eq_false_iff.mpr h, if_neg Bool.false_ne_true]

/-- A terminated text is that of its lines, each with a line feed. -/
theorem IsTerminated.ended_wholeLines (h : t.IsTerminated) : ended ['\n'] t.wholeLines = t := by
  by_cases hnil : t = []
  · rw [hnil]
    rfl
  · rw [wholeLines_of_ne_nil hnil, ended_bodyLines (h.resolve_left hnil)]

/-- The lines of the text of some lines are these, and an empty one after the last line feed. -/
theorem lines_written (hls : ∀ l ∈ ls, '\n' ∉ l) (h : isEnded = true ∨ ls ≠ []) :
    lines (written isEnded ls) = if isEnded then ls ++ [[]] else ls := by
  cases isEnded with
  | true =>
    have hlines := lines_ended hls (List.not_mem_nil)
    rw [List.append_nil] at hlines
    exact hlines
  | false =>
    have hne : ls ≠ [] := h.resolve_left Bool.false_ne_true
    have hlast : '\n' ∉ ls.getLast hne := hls _ (List.getLast_mem hne)
    have hfront : ∀ l ∈ ls.dropLast, '\n' ∉ l := fun l hl => hls l (List.dropLast_subset ls hl)
    have hlines := lines_ended hfront hlast
    rw [← join_concat, List.dropLast_concat_getLast hne] at hlines
    exact hlines

/-- Ended lines are the first lines of a text that goes on after them. -/
theorem lines_ended_append (hls : ∀ l ∈ ls, '\n' ∉ l) (rest : Text) :
    lines (ended ['\n'] ls ++ rest) = ls ++ lines rest := by
  induction ls with
  | nil => rfl
  | cons l ls ih =>
    obtain ⟨hl, htail⟩ := List.forall_mem_cons.mp hls
    have hcut : lines (l ++ '\n' :: (ended ['\n'] ls ++ rest)) =
        l :: lines (ended ['\n'] ls ++ rest) := cut_append_cons (beq_lineFeed_eq_false hl) rfl _
    rw [ended_cons_append, List.singleton_append, hcut, ih htail, List.cons_append]

/-- The body lines of a text are the ended lines that it starts with and the lines of the rest. -/
theorem bodyLines_ended_append_rest (hls : ∀ l ∈ ls, '\n' ∉ l) (hne : ls ≠ []) (rest : Text) :
    bodyLines (ended ['\n'] ls ++ rest) = ls ++ wholeLines rest := by
  unfold wholeLines
  by_cases hrest : rest = []
  · rw [hrest, List.append_nil, bodyLines_ended hls hne, List.isEmpty_nil, if_pos rfl,
      List.append_nil]
  · rw [List.isEmpty_eq_false_iff.mpr hrest, if_neg Bool.false_ne_true, bodyLines,
      endsLine_append_of_ne_nil _ hrest, lines_ended_append hls, bodyLines]
    split_ifs
    · exact List.dropLast_append_of_ne_nil (cut_ne_nil _ rest)
    · rfl

/-- The lines of a text that ends a line come before those of what follows it. -/
theorem lines_append_of_endsLine (h : t.endsLine = true) (rest : Text) :
    lines (t ++ rest) = t.bodyLines ++ lines rest := by
  conv_lhs => rw [← ended_bodyLines h]
  exact lines_ended_append (fun _ => lineFeed_notMem_of_mem_bodyLines) rest

/-- A line with a line feed after it is the one body line. -/
theorem bodyLines_concat (h : '\n' ∉ line) : bodyLines (line ++ ['\n']) = [line] := by
  rw [← List.append_nil (line ++ ['\n'])]
  exact bodyLines_ended (List.forall_mem_singleton.mpr h) (List.cons_ne_nil _ _)

/-- The body lines of a text that ends a line come before the lines of what follows it. -/
theorem bodyLines_append_of_endsLine (h : t.endsLine = true) (rest : Text) :
    bodyLines (t ++ rest) = t.bodyLines ++ wholeLines rest := by
  conv_lhs => rw [← ended_bodyLines h]
  exact bodyLines_ended_append_rest (fun _ => lineFeed_notMem_of_mem_bodyLines) t.bodyLines_ne_nil
    rest

/-- Texts of so many lines are those of as many. -/
theorem length_eq_of_written_eq {ls' : List Text} (hls : ∀ l ∈ ls, '\n' ∉ l)
    (hls' : ∀ l ∈ ls', '\n' ∉ l) (h : isEnded = true ∨ ls ≠ [] ∧ ls' ≠ [])
    (heq : written isEnded ls = written isEnded ls') : ls.length = ls'.length := by
  have hlines := congrArg (List.length ∘ lines) heq
  simp only [Function.comp_apply] at hlines
  rw [lines_written hls (h.imp_right And.left),
    lines_written hls' (h.imp_right And.right)] at hlines
  cases isEnded with
  | true => simpa using hlines
  | false => exact hlines

/-! ## Moved lines -/

/-- The text of moved lines. -/
theorem moveLines_written (isEnded : Bool) (hls : ∀ l ∈ ls, '\n' ∉ l) :
    moveLines inner outer (written isEnded ls) =
      written isEnded (ls.map (moveIndent inner outer)) := by
  by_cases hne : ls = []
  · rw [hne, written_nil, moveLines_of_notMem List.not_mem_nil, List.map_nil, written_nil]
    exact moveIndent_of_isBlank rfl
  · rw [moveLines, lines_written hls (.inr hne)]
    cases isEnded with
    | true =>
      rw [if_pos rfl, List.map_append, List.map_singleton, moveIndent_of_isBlank rfl, unlines,
        join_concat, List.append_nil]
      rfl
    | false => rfl

/-- A moved line is the same but for its indentation. -/
theorem afterIndent_moveIndent (hinner : ∀ c ∈ inner, isIndent c = true)
    (houter : ∀ c ∈ outer, isIndent c = true) (line : Text) :
    (moveIndent inner outer line).afterIndent = line.afterIndent := by
  rcases moveIndent_cases inner outer line with h | ⟨rest, rfl, -, h⟩
  · rw [h]
  · rw [h, afterIndent, afterIndent, List.dropWhile_append_of_pos houter,
      List.dropWhile_append_of_pos hinner]

/-- No indentation holds a line feed. -/
theorem lineFeed_mem_afterIndent_iff : '\n' ∈ line.afterIndent ↔ '\n' ∈ line := by
  have hparts : indent line ++ line.afterIndent = line := List.takeWhile_append_dropWhile
  have hindent : '\n' ∉ indent line := fun h => absurd (isIndent_of_mem_indent h) (by decide)
  conv_rhs => rw [← hparts, List.mem_append, or_iff_right hindent]

/-- Lines that are the same as others but for their indentation hold no line feeds if those do
not. -/
theorem lineFeed_notMem_of_map_afterIndent {put : List Text}
    (h : put.map afterIndent = ls.map afterIndent) (hls : ∀ l ∈ ls, '\n' ∉ l) :
    ∀ l ∈ put, '\n' ∉ l := by
  intro l hl
  have hmem : l.afterIndent ∈ ls.map afterIndent := h ▸ List.mem_map_of_mem hl
  obtain ⟨m, hm, heq⟩ := List.mem_map.mp hmem
  rw [← lineFeed_mem_afterIndent_iff, ← heq, lineFeed_mem_afterIndent_iff]
  exact hls m hm

end Text

end Emend
