import Emend.Proofs.HunkReading

/-!
# Steps of a diff reader

All that a reader of a diff can do with what stands next: it closes its hunk and opens another one,
notes the names of files, or takes a line of a diff into its open hunk as a line of it or as a mark
(`step_cases`, `addLine_kinds`). What holds of a reader is shown to last by going through these
cases, without opening the definitions again.
-/

namespace Emend

/-- A line of a diff is a line of a hunk with the mark of its kind in front; an empty line is empty
context. -/
def HunkLine.IsWrittenAs (l : HunkLine) (line : Text) : Prop :=
  line = l.kind.mark :: l.text ∨ line = [] ∧ l = ⟨.context, []⟩

/-- A line of a diff has no mark of a kind in front, and it is not empty. -/
def DiffLine.IsUnmarked (line : Text) : Prop :=
  line ≠ [] ∧ ∀ kind : LineKind, line.head? ≠ some kind.mark

/-- The text of a line is the end of it as it is written. -/
theorem HunkLine.IsWrittenAs.suffix {l : HunkLine} {line : Text} (h : l.IsWrittenAs line) :
    l.text <:+ line := by
  obtain rfl | ⟨rfl, rfl⟩ := h
  · exact List.suffix_cons _ l.text
  · exact List.suffix_refl []

/-- No mark of a kind is a backslash. -/
theorem HunkLine.IsWrittenAs.ne_backslash {l : HunkLine} {line : Text} (h : l.IsWrittenAs line)
    (t : Text) : line ≠ '\\' :: t := by
  obtain rfl | ⟨rfl, rfl⟩ := h
  · intro heq
    have hmark : l.kind.mark = '\\' := (List.cons.inj heq).1
    revert hmark
    cases l.kind <;> decide
  · exact (List.cons_ne_nil _ _).symm

namespace DiffReader

variable {r s : DiffReader}

/-- A reader that closed its hunk had none open, or it has it among the closed ones. -/
theorem close_cases (hclose : r.close = .ok s) :
    (r.current = none ∧ s = r) ∨
      ∃ g t warnings, r.current = some g ∧ g.finish = .ok (t, warnings) ∧
        s = { r with
          complete := r.complete ++ [t], current := none, warnings := r.warnings ++ warnings } := by
  unfold close at hclose
  cases hcurrent : r.current with
  | none =>
    rw [hcurrent] at hclose
    exact .inl ⟨rfl, (Except.ok.inj hclose).symm⟩
  | some g =>
    rw [hcurrent] at hclose
    dsimp only at hclose
    split at hclose
    · next t warnings hfinish =>
      exact .inr ⟨g, t, warnings, rfl, hfinish, (Except.ok.inj hclose).symm⟩
    · cases hclose

/-- No hunk is open once it is closed. -/
theorem current_of_close (hclose : r.close = .ok s) : s.current = none := by
  obtain ⟨hcurrent, rfl⟩ | ⟨g, t, warnings, -, -, rfl⟩ := close_cases hclose
  · exact hcurrent
  · rfl

/-- A hunk is opened by its header. -/
theorem ofHeader?_of_openHunk {line : Text} (hopen : r.openHunk line = .ok s) :
    ∃ h, Hunk.ofHeader? r.complete.length line = some h ∧ s = { r with current := some h } := by
  unfold openHunk at hopen
  split at hopen
  · next h hheader => exact ⟨h, hheader, (Except.ok.inj hopen).symm⟩
  · cases hopen

/-- A hunk is opened without lines. -/
theorem openHunk_cases {line : Text} (hopen : r.openHunk line = .ok s) :
    ∃ h, h.lines = [] ∧ s = { r with current := some h } := by
  obtain ⟨h, hheader, hs⟩ := ofHeader?_of_openHunk hopen
  exact ⟨h, Hunk.lines_of_ofHeader? hheader, hs⟩

/-- A marked line gives the open hunk a line and a line with a backslash in front is a mark of a
missing line feed. Any other line becomes context if the hunk wants it, and otherwise closes the
hunk. -/
theorem addLine_kinds {g : Hunk} {line : Text} {rest : List DiffLine}
    (hline : r.addLine g line rest = .ok s) :
    (∃ l : HunkLine, l.IsWrittenAs line ∧ s = { r with current := some (g.push l.kind l.text) }) ∨
      (∃ t, line = '\\' :: t ∧ s = { r with current := some g.markMissing }) ∨
      (DiffLine.IsUnmarked line ∧ (∀ t, line ≠ '\\' :: t) ∧
        ((g.wants rest = true ∧
            ∃ trace, s = { r with current := some (g.push .context line), trace := trace }) ∨
          (g.wants rest = false ∧ r.close = .ok s))) := by
  unfold addLine at hline
  split at hline
  · exact .inl ⟨⟨.context, []⟩, .inr ⟨rfl, rfl⟩, (Except.ok.inj hline).symm⟩
  · next text => exact .inl ⟨⟨.context, text⟩, .inl rfl, (Except.ok.inj hline).symm⟩
  · next text => exact .inl ⟨⟨.add, text⟩, .inl rfl, (Except.ok.inj hline).symm⟩
  · next text => exact .inl ⟨⟨.remove, text⟩, .inl rfl, (Except.ok.inj hline).symm⟩
  · next t => exact .inr (.inl ⟨t, rfl, (Except.ok.inj hline).symm⟩)
  · -- Without a mark the line is context that lost its space, or it closes the hunk.
    next hnil hcontext hadd hremove hslash =>
    refine .inr (.inr ⟨⟨hnil, fun kind hhead => ?_⟩, hslash, ?_⟩)
    · obtain ⟨t, rfl⟩ := List.head?_eq_some_iff.mp hhead
      cases kind with
      | context => exact hcontext t rfl
      | add => exact hadd t rfl
      | remove => exact hremove t rfl
    · split at hline
      · next hwants => exact .inl ⟨hwants, _, (Except.ok.inj hline).symm⟩
      · next hwants => exact .inr ⟨Bool.eq_false_iff.mpr hwants, hline⟩

/-- A line with a backslash in front is a mark. Any other line gives the open hunk a line, which is
the end of it, or closes the hunk. -/
theorem addLine_cases {g : Hunk} {line : Text} {rest : List DiffLine}
    (hline : r.addLine g line rest = .ok s) :
    (∃ t, line = '\\' :: t ∧ s = { r with current := some g.markMissing }) ∨
      (∀ t, line ≠ '\\' :: t) ∧
        ((∃ kind text trace, text <:+ line ∧
            s = { r with current := some (g.push kind text), trace := trace }) ∨
          r.close = .ok s) := by
  rcases addLine_kinds hline with ⟨l, hl, rfl⟩ | hmark | ⟨-, hslash, ⟨-, trace, rfl⟩ | ⟨-, hclose⟩⟩
  · exact .inr ⟨hl.ne_backslash, .inl ⟨l.kind, l.text, r.trace, hl.suffix, rfl⟩⟩
  · exact .inl hmark
  · exact .inr ⟨hslash, .inl ⟨.context, line, trace, List.suffix_refl line, rfl⟩⟩
  · exact .inr ⟨hslash, .inr hclose⟩

/-- The header of a hunk closes the open one and opens its own. -/
theorem openHunk_of_step {line : Text} {rest : List DiffLine}
    (hstep : r.step (.hunk line) rest = .ok s) :
    ∃ t, r.close = .ok t ∧ t.openHunk line = .ok s := by
  unfold step at hstep
  dsimp only at hstep
  cases hclose : r.close with
  | ok t =>
    rw [hclose] at hstep
    exact ⟨t, rfl, hstep⟩
  | error e =>
    rw [hclose] at hstep
    cases hstep

/-- A line of a diff is read into the open hunk. -/
theorem addLine_of_step {g : Hunk} {line : Text} {rest : List DiffLine}
    (hcurrent : r.current = some g) (hstep : r.step (.body line) rest = .ok s) :
    r.addLine g line rest = .ok s := by
  rw [step, hcurrent] at hstep
  exact hstep

/-- A header of any kind closes the open hunk first. A line of a diff outside a hunk is passed
over. -/
theorem step_cases {next : DiffLine} {rest : List DiffLine} (hstep : r.step next rest = .ok s) :
    (∃ line t, next = .hunk line ∧ r.close = .ok t ∧ t.openHunk line = .ok s) ∨
      (next = .pair ∧ r.close = .ok s) ∨
      (∃ old new t, next = .files old new ∧ r.close = .ok t ∧ s = t.nameFiles old new) ∨
      ∃ line, next = .body line ∧
        ((r.current = none ∧ s = r) ∨ ∃ g, r.current = some g ∧ r.addLine g line rest = .ok s) := by
  cases next with
  | hunk line =>
    obtain ⟨t, hclose, hopen⟩ := openHunk_of_step hstep
    exact .inl ⟨line, t, rfl, hclose, hopen⟩
  | pair => exact .inr (.inl ⟨rfl, hstep⟩)
  | files old new =>
    unfold step at hstep
    dsimp only at hstep
    cases hclose : r.close with
    | ok t =>
      rw [hclose] at hstep
      exact .inr (.inr (.inl ⟨old, new, t, rfl, rfl, (Except.ok.inj hstep).symm⟩))
    | error e =>
      rw [hclose] at hstep
      cases hstep
  | body line =>
    refine .inr (.inr (.inr ⟨line, rfl, ?_⟩))
    cases hcurrent : r.current with
    | none =>
      rw [step, hcurrent] at hstep
      exact .inl ⟨rfl, (Except.ok.inj hstep).symm⟩
    | some g => exact .inr ⟨g, rfl, addLine_of_step hcurrent hstep⟩

end DiffReader

namespace ParsedDiff

variable {edit : Text} {diff : ParsedDiff}

/-- A text that is read is read to its end. -/
theorem exists_run_of_read (hread : (read edit).value = .ok diff) :
    ∃ r, DiffReader.initial.run (DiffLine.ofEdit edit) = (r, none) ∧ diff = r.parsed := by
  unfold read at hread
  cases hrun : DiffReader.initial.run (DiffLine.ofEdit edit) with
  | mk r fault =>
    rw [hrun] at hread
    cases fault with
    | none =>
      cases hread
      exact ⟨r, rfl, rfl⟩
    | some e => cases hread

/-- A text that is read has the hunks that the reader ends with. -/
theorem hunks_of_read (hread : (read edit).value = .ok diff) :
    diff.hunks = (DiffReader.initial.run (DiffLine.ofEdit edit)).1.complete := by
  obtain ⟨r, hrun, rfl⟩ := exists_run_of_read hread
  rw [hrun]
  rfl

end ParsedDiff

end Emend
