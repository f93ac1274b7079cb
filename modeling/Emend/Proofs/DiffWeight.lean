import Emend.Proofs.DiffSteps
import Mathlib.Algebra.GroupWithZero.Nat

/-!
# Weight of a diff

No line of a diff gives more than one line of a hunk, and headers give none (`DiffLine.weight`). So
the hunks that are read have at most as many lines as the diff weighs (`DiffReader.weight_run_le`).
A written diff weighs as much as its hunks have lines (`weightOf_writtenDiff`), if each of its lines
stands for itself; it weighs less where two lines are taken as the names of two files
(`DiffLine.weightOf_ofLines_lt`).
-/

namespace Emend

namespace DiffLine

/-- How many lines of a hunk come of a line of a diff, at most. -/
def weight : DiffLine → Nat
  | .body ('\\' :: _) => 0
  | .body _ => 1
  | _ => 0

/-- A line without a backslash in front may be one of a hunk. -/
theorem weight_body {line : Text} (h : ∀ t, line ≠ '\\' :: t) : (body line).weight = 1 := by
  unfold weight
  split
  · next t heq => exact absurd (DiffLine.body.inj heq) (h t)
  · rfl
  · next hbody => exact absurd rfl (hbody line)

/-- How many lines of a hunk come of some lines of a diff, at most. -/
def weightOf (ls : List DiffLine) : Nat := (ls.map weight).sum

/-- The weight of a line adds to that of the others. -/
theorem weightOf_cons (l : DiffLine) (ls : List DiffLine) :
    weightOf (l :: ls) = l.weight + weightOf ls := by
  rw [weightOf, List.map_cons, List.sum_cons, weightOf]

/-- The weights of two parts add up. -/
theorem weightOf_append (ls ms : List DiffLine) :
    weightOf (ls ++ ms) = weightOf ls + weightOf ms := by
  rw [weightOf, List.map_append, List.sum_append, weightOf, weightOf]

/-- A line that names an old file could as well be a removed one. -/
theorem weight_ofLine_of_namesFiles {line next : Text} (h : namesFiles line next = true) :
    (ofLine line).weight = 1 := by
  obtain ⟨rest, rfl⟩ := Text.startsWith_iff.mp (Bool.and_eq_true_iff.mp h).1
  rfl

/-- No line weighs more than on its own. -/
theorem weightOf_ofLines_le (ls : List Text) :
    weightOf (ofLines ls) ≤ weightOf (ls.map ofLine) := by
  fun_induction ofLines ls with
  | case1 => exact Nat.le_refl _
  | case2 line => exact Nat.le_refl _
  | case3 line next rest hnames ih =>
    have hfiles : (files line next).weight = 0 := rfl
    rw [List.map_cons, List.map_cons, weightOf_cons, weightOf_cons, weightOf_cons, hfiles]
    omega
  | case4 line next rest hnames ih =>
    rw [List.map_cons, weightOf_cons, weightOf_cons]
    omega

/-- Lines of which two name two files weigh less than on their own. -/
theorem weightOf_ofLines_lt {ls : List Text} (hpair : ¬ ls.IsChain Apart) :
    weightOf (ofLines ls) < weightOf (ls.map ofLine) := by
  fun_induction ofLines ls with
  | case1 => exact absurd .nil hpair
  | case2 line => exact absurd (.singleton line) hpair
  | case3 line next rest hnames ih =>
    have hfiles : (files line next).weight = 0 := rfl
    have hold := weight_ofLine_of_namesFiles hnames
    have hrest := weightOf_ofLines_le rest
    rw [List.map_cons, List.map_cons, weightOf_cons, weightOf_cons, weightOf_cons, hfiles, hold]
    omega
  | case4 line next rest hnames ih =>
    have hapart : Apart line next := Bool.eq_false_iff.mpr hnames
    have hrest := ih fun hchain => hpair (List.isChain_cons_cons.mpr ⟨hapart, hchain⟩)
    rw [List.map_cons, weightOf_cons, weightOf_cons]
    omega

end DiffLine

/-! ## Written diffs -/

/-- The rows of a hunk weigh as much as it has lines. -/
theorem Hunk.weightOf_rowsFrom (h : Hunk) (ls : List HunkLine) :
    DiffLine.weightOf ((h.rowsFrom ls).map fun row => DiffLine.body row.text) = ls.length := by
  induction ls with
  | nil => rfl
  | cons l later ih =>
    -- A line weighs one by its mark, and the row after it, if there is one, nothing.
    have hline : (DiffLine.body (DiffRow.line l).text).weight = 1 := by
      refine DiffLine.weight_body fun t heq => ?_
      have hmark : l.kind.mark = '\\' := (List.cons.inj heq).1
      revert hmark
      cases l.kind <;> decide
    have hnote : (DiffLine.body DiffRow.noNewline.text).weight = 0 := rfl
    rw [rowsFrom, List.map_append, DiffLine.weightOf_append, ih, List.map_cons,
      DiffLine.weightOf_cons, hline, List.length_cons]
    split
    · rw [List.map_singleton, DiffLine.weightOf_cons, hnote]
      exact Nat.add_comm _ _
    · exact Nat.add_comm _ _

/-- What the lines of a written hunk are. -/
theorem Hunk.map_ofLine_written (h : Hunk) :
    h.written.map DiffLine.ofLine =
      .hunk h.writtenHeader :: h.rows.map fun row => DiffLine.body row.text := by
  rw [written, List.map_cons, DiffLine.ofLine_writtenHeader, List.map_map]
  exact congrArg _ (List.map_congr_left fun row _ => row.ofLine_text)

/-- The lines of a written diff weigh as much as its hunks have lines. -/
theorem weightOf_writtenDiff (hunks : List Hunk) :
    DiffLine.weightOf ((writtenDiff hunks).map DiffLine.ofLine) =
      (hunks.map (·.lines.length)).sum := by
  induction hunks with
  | nil => rfl
  | cons h hunks ih =>
    have hheader : (DiffLine.hunk h.writtenHeader).weight = 0 := rfl
    rw [writtenDiff, List.flatMap_cons, ← writtenDiff, List.map_append, DiffLine.weightOf_append,
      ih, h.map_ofLine_written, DiffLine.weightOf_cons, hheader, Nat.zero_add, Hunk.rows,
      h.weightOf_rowsFrom, List.map_cons, List.sum_cons]

namespace DiffReader

variable {r s : DiffReader}

/-! ## Hunks of a reader -/

/-- How many lines the hunks of a reader have. -/
def weight (r : DiffReader) : Nat :=
  (r.complete.map (·.lines.length)).sum + r.current.elim 0 (·.lines.length)

/-- Closing a hunk adds no line. -/
theorem weight_close_le (hclose : r.close = .ok s) : s.weight ≤ r.weight := by
  obtain ⟨-, rfl⟩ | ⟨g, t, warnings, hcurrent, hfinish, rfl⟩ := close_cases hclose
  · exact Nat.le_refl _
  · have hlines := (Hunk.lines_prefix_of_finish hfinish).length_le
    have hsum : ((r.complete ++ [t]).map (·.lines.length)).sum =
        (r.complete.map (·.lines.length)).sum + t.lines.length := by simp
    unfold weight
    rw [hsum, hcurrent]
    exact Nat.add_le_add_left hlines _

/-- The lines of a closed hunk are kept where another one is opened. -/
theorem weight_openHunk_le {line : Text} (hopen : r.openHunk line = .ok s) :
    s.weight ≤ r.weight := by
  obtain ⟨h, hlines, rfl⟩ := openHunk_cases hopen
  unfold weight
  dsimp only [Option.elim]
  rw [hlines]
  exact Nat.le_add_right _ _

/-- One more line of the open hunk weighs one. -/
theorem weight_push {g : Hunk} (hcurrent : r.current = some g) (kind : LineKind) (text : Text)
    (trace : List Record) :
    weight { r with current := some (g.push kind text), trace := trace } = r.weight + 1 := by
  unfold weight
  rw [hcurrent]
  simp [Hunk.push, Nat.add_assoc]

/-- A mark weighs nothing. -/
theorem weight_markMissing {g : Hunk} (hcurrent : r.current = some g) :
    weight { r with current := some g.markMissing } = r.weight := by
  unfold weight
  rw [hcurrent]
  dsimp only [Option.elim]
  rw [g.lines_markMissing]

/-- A line that is read into a hunk adds no more than it weighs. -/
theorem weight_addLine_le {g : Hunk} {line : Text} {rest : List DiffLine}
    (hcurrent : r.current = some g) (hline : r.addLine g line rest = .ok s) :
    s.weight ≤ r.weight + (DiffLine.body line).weight := by
  rcases addLine_cases hline with ⟨t, rfl, rfl⟩ | ⟨hmark, ⟨kind, text, trace, -, rfl⟩ | hclose⟩
  · exact (weight_markMissing hcurrent).le
  · rw [DiffLine.weight_body hmark]
    exact (weight_push hcurrent kind text trace).le
  · exact (weight_close_le hclose).trans (Nat.le_add_right _ _)

/-- A step adds no more lines than what was read weighs. -/
theorem weight_step_le {next : DiffLine} {rest : List DiffLine}
    (hstep : r.step next rest = .ok s) : s.weight ≤ r.weight + next.weight := by
  rcases step_cases hstep with ⟨line, t, rfl, hclose, hopen⟩ | ⟨rfl, hclose⟩ |
    ⟨old, new, t, rfl, hclose, rfl⟩ | ⟨line, rfl, ⟨-, rfl⟩ | ⟨g, hcurrent, hline⟩⟩
  · exact (weight_openHunk_le hopen).trans (weight_close_le hclose)
  · exact weight_close_le hclose
  · have hnames : (t.nameFiles old new).weight = t.weight := rfl
    rw [hnames]
    exact weight_close_le hclose
  · exact Nat.le_add_right _ _
  · exact weight_addLine_le hcurrent hline

/-- A reader ends with no more lines of hunks than what was read weighs. -/
theorem weight_run_le (ls : List DiffLine) (r : DiffReader) :
    (r.run ls).1.weight ≤ r.weight + DiffLine.weightOf ls := by
  induction ls generalizing r with
  | nil =>
    rw [run]
    split
    · next s hclose => exact weight_close_le hclose
    · exact Nat.le_refl _
  | cons next rest ih =>
    rw [run, DiffLine.weightOf_cons]
    split
    · next s hstep =>
      have hrest := ih { s with count := s.count + next.height }
      have hcount : weight { s with count := s.count + next.height } = s.weight := rfl
      have hnext := weight_step_le hstep
      omega
    · exact Nat.le_add_right _ _

end DiffReader

end Emend
