import Emend.Proofs.OpenHunk

/-!
# Lines without a mark

Context lines of a diff often lose their space. A hunk owes lines as long as the counts of its
header are not met, or, if it is bare, as long as a change comes before the next header
(`Hunk.Owes`); there the reader wants lines without a mark (`Hunk.wants_ofLines_iff`). What it does
with one turns on a backslash alone: a line with a backslash in front says that a line feed is
missing, whatever it goes on with, and any other line becomes context and stays in the hunk
(`ParsedDiff.keeps_unmarked_iff`).
-/

namespace Emend

/-- A line that can be a line of a hunk as it is written is not without a mark. -/
theorem HunkLine.IsWrittenAs.not_isUnmarked {l : HunkLine} {line : Text} (h : l.IsWrittenAs line) :
    ¬ DiffLine.IsUnmarked line := by
  rintro ⟨hne, hmark⟩
  obtain rfl | ⟨hnil, -⟩ := h
  · exact hmark l.kind rfl
  · exact hne hnil

/-- A line without a mark names no file. -/
theorem DiffLine.IsUnmarked.startsWith_eq_false {line : Text} (h : DiffLine.IsUnmarked line)
    (kind : LineKind) (word : Text) : Text.startsWith (kind.mark :: word) line = false := by
  rw [Bool.eq_false_iff]
  intro hstarts
  obtain ⟨rest, rfl⟩ := Text.startsWith_iff.mp hstarts
  exact h.2 kind rfl

namespace Hunk

/-- A hunk has fewer lines than its header says, or it is bare and a change comes before the next
header. -/
def Owes (g : Hunk) (back : List Text) : Prop :=
  if g.isNumbered then
    (g.oldLines.length : Int) < g.oldCount ∨ (g.newLines.length : Int) < g.newCount
  else ∃ line ∈ DiffLine.untilHeader back, line.head? = some '+' ∨ line.head? = some '-'

/-- A hunk wants lines without a mark as long as it owes lines. -/
theorem wants_ofLines_iff (g : Hunk) (back : List Text) :
    g.wants (DiffLine.ofLines back) = true ↔ g.Owes back := by
  unfold wants Owes
  split
  · rw [Bool.or_eq_true, decide_eq_true_iff, decide_eq_true_iff]
  · exact DiffLine.changesFollow_ofLines_iff back

/-- A hunk with a line more is not a hunk with a mark more. -/
theorem markMissing_ne_push (g : Hunk) (kind : LineKind) (text : Text) :
    g.markMissing ≠ g.push kind text := by
  intro heq
  have hlines : g.lines = g.lines ++ [⟨kind, text⟩] :=
    g.lines_markMissing.symm.trans (congrArg Hunk.lines heq)
  exact List.cons_ne_nil _ _ (List.self_eq_append_right.mp hlines)

/-- What ends with an entry that is not padding is a beginning of what is padded only if it is one
of what stands before the padding. -/
theorem prefix_of_prefix_append_replicate {front ls : List HunkLine} {x pad : HunkLine} {n : Nat}
    (hne : x ≠ pad) (h : front ++ [x] <+: ls ++ List.replicate n pad) : front ++ [x] <+: ls := by
  rcases List.prefix_or_prefix_of_prefix h (List.prefix_append ls _) with hls | hls
  · exact hls
  · rcases List.prefix_concat_iff.mp hls with heq | hfront
    · exact ⟨[], (List.append_nil _).trans heq.symm⟩
    · -- Otherwise the last entry stands in the padding.
      obtain ⟨later, rfl⟩ := hfront
      rw [List.append_assoc, List.prefix_append_right_inj] at h
      have hx : x ∈ List.replicate n pad := h.subset (List.mem_append_right _ List.mem_cons_self)
      exact absurd (List.eq_of_mem_replicate hx) hne

/-- A line of an open hunk that is not empty context stays in it when it is read on and closed. -/
theorem ReadTo.push_prefix {g g' h : Hunk} {ls : List DiffLine} {warnings : List Warning}
    {l : HunkLine} (hread : (g.push l.kind l.text).ReadTo ls g')
    (hfinish : g'.finish = .ok (h, warnings)) (hne : l ≠ ⟨.context, []⟩) :
    g.lines ++ [l] <+: h.lines := by
  have hbegins : g.lines ++ [l] <+: g'.lines := hread.lines_prefix
  obtain ⟨n, hpadded⟩ := exists_padding_of_finish hfinish
  rw [hpadded] at hbegins
  exact prefix_of_prefix_append_replicate hne hbegins

end Hunk

namespace ParsedDiff

/-- **Lines that lost their space.** A text is read up to any line that has no mark, is not empty
and starts like no header. If a hunk is open there that owes lines, the line becomes its next
context line, and nothing else changes in the hunk, just if the line does not start with a
backslash; if it does, it marks the line before it instead. The context line is in the hunk of that
number that is read in the end. -/
theorem keeps_unmarked_iff {edit : Text} {diff : ParsedDiff} {front back : List Text} {line : Text}
    (hread : (ParsedDiff.read edit).value = .ok diff)
    (hlines : edit.unifyEndings.bodyLines = front ++ line :: back)
    (hline : DiffLine.IsUnmarked line) (hhunk : Text.startsWith DiffLine.hunkWord line = false)
    (hpair : Text.startsWith DiffLine.pairWord line = false) :
    ∃ r, DiffReader.initial.after (DiffLine.ofLines front) (.body line :: DiffLine.ofLines back) =
        .ok r ∧
      ∀ g, r.current = some g → g.Owes back →
        ∃ s g' h, r.step (.body line) (DiffLine.ofLines back) = .ok s ∧ s.current = some g' ∧
          diff.hunks[r.complete.length]? = some h ∧
          (g' = g.push .context line ↔ line.head? ≠ some '\\') ∧
          (line.head? ≠ some '\\' → g.lines ++ [⟨.context, line⟩] <+: h.lines) ∧
          (line.head? = some '\\' → g' = g.markMissing) := by
  obtain ⟨r', hrun, rfl⟩ := exists_run_of_read hread
  rw [DiffLine.ofEdit, hlines, DiffLine.ofLines_append_cons (hline.startsWith_eq_false .remove _)
    (hline.startsWith_eq_false .add _), DiffLine.ofLine_of_not hhunk hpair] at hrun
  obtain ⟨r, hafter, hrest⟩ := DiffReader.exists_after_of_run hrun
  refine ⟨r, hafter, fun g hcurrent howes => ?_⟩
  obtain ⟨s, hstep, hend⟩ := DiffReader.exists_step_of_run hrest
  have hadd := DiffReader.addLine_of_step hcurrent hstep
  rcases DiffReader.addLine_kinds hadd with ⟨l, hl, -⟩ | ⟨t, rfl, rfl⟩ |
    ⟨-, hslash, ⟨-, trace, rfl⟩ | ⟨hunwanted, -⟩⟩
  · exact absurd hline hl.not_isUnmarked
  · -- With a backslash in front the line is taken for a mark.
    obtain ⟨g', h, warnings, -, -, hkept⟩ := DiffReader.exists_readTo_of_run rfl hend
    refine ⟨_, _, h, hstep, rfl, hkept, ?_, fun hne => absurd rfl hne, fun _ => rfl⟩
    exact iff_of_false (g.markMissing_ne_push _ _) fun hne => hne rfl
  · obtain ⟨g', h, warnings, hreadTo, hfinish, hkept⟩ :=
      DiffReader.exists_readTo_of_run rfl hend
    have hhead : line.head? ≠ some '\\' := by
      intro hhead
      obtain ⟨t, ht⟩ := List.head?_eq_some_iff.mp hhead
      exact hslash t ht
    have hne : (⟨.context, line⟩ : HunkLine) ≠ ⟨.context, []⟩ :=
      fun heq => hline.1 (congrArg HunkLine.text heq)
    have hstays : g.lines ++ [⟨.context, line⟩] <+: h.lines :=
      Hunk.ReadTo.push_prefix hreadTo hfinish hne
    exact ⟨_, _, h, hstep, rfl, hkept, iff_of_true rfl hhead, fun _ => hstays,
      fun hhead' => absurd hhead' hhead⟩
  · rw [(g.wants_ofLines_iff back).mpr howes] at hunwanted
    cases hunwanted

/-- A hunk with a context line that lost its space and starts nearly like the header of a pair of
files. -/
def lostSpace : Text := "@@ -1,3 +1,3 @@\n-a\n+b\ndiff --gut\n c\n".toList

/-- The line becomes context of the hunk, where two more lines are owed. -/
theorem keeps_unmarked_lostSpace :
    ∃ (diff : ParsedDiff) (r s : DiffReader) (g h : Hunk),
      (ParsedDiff.read lostSpace).value = .ok diff ∧
      lostSpace.unifyEndings.bodyLines =
        ["@@ -1,3 +1,3 @@".toList, ['-', 'a'], ['+', 'b']] ++ "diff --gut".toList :: [[' ', 'c']] ∧
      DiffLine.IsUnmarked "diff --gut".toList ∧
      Text.startsWith DiffLine.hunkWord "diff --gut".toList = false ∧
      Text.startsWith DiffLine.pairWord "diff --gut".toList = false ∧
      r.current = some g ∧ g.Owes [[' ', 'c']] ∧
      r.step (.body "diff --gut".toList) (DiffLine.ofLines [[' ', 'c']]) = .ok s ∧
      s.current = some (g.push .context "diff --gut".toList) ∧
      diff.hunks[r.complete.length]? = some h ∧
      g.lines ++ [⟨.context, "diff --gut".toList⟩] <+: h.lines := by
  have hlines : lostSpace.unifyEndings.bodyLines =
      ["@@ -1,3 +1,3 @@".toList, ['-', 'a'], ['+', 'b']] ++
        "diff --gut".toList :: [[' ', 'c']] := by
    decide +kernel
  have hunmarked : DiffLine.IsUnmarked "diff --gut".toList :=
    ⟨by decide, fun kind => by cases kind <;> decide⟩
  obtain ⟨diff, hread⟩ : ∃ diff, (ParsedDiff.read lostSpace).value = .ok diff := ⟨_, rfl⟩
  obtain ⟨r, hr, hkeeps⟩ := keeps_unmarked_iff hread hlines hunmarked (by decide) (by decide)
  obtain rfl := Except.ok.inj hr
  obtain ⟨s, g', h, hstep, hcurrent, hh, hpush, hstays, -⟩ :=
    hkeeps _ rfl ((Hunk.wants_ofLines_iff _ _).mp rfl)
  have hhead : "diff --gut".toList.head? ≠ some '\\' := by decide
  rw [hpush.mpr hhead] at hcurrent
  exact ⟨diff, _, s, _, h, hread, hlines, hunmarked, by decide, by decide, rfl,
    (Hunk.wants_ofLines_iff _ _).mp rfl, hstep, hcurrent, hh, hstays hhead⟩

/-- A hunk whose last line lost its space and starts with a backslash, with no space after it. -/
def lostCommand : Text := "@@ -1,2 +1,2 @@\n-a\n+b\n\\section\n".toList

/-- A line with a backslash in front that says something else is lost: the hunk owes a line on each
side where it stands, but is read without it, with a mark and with two wrong counts. -/
theorem read_losesCommand :
    ∃ (diff : ParsedDiff) (r : DiffReader) (g h : Hunk),
      (read lostCommand).value = .ok diff ∧
      lostCommand.unifyEndings.bodyLines =
        ["@@ -1,2 +1,2 @@".toList, ['-', 'a'], ['+', 'b']] ++ ["\\section".toList] ∧
      DiffLine.IsUnmarked "\\section".toList ∧
      Text.startsWith ['\\', ' '] "\\section".toList = false ∧
      DiffReader.initial.after
        (DiffLine.ofLines ["@@ -1,2 +1,2 @@".toList, ['-', 'a'], ['+', 'b']])
        [.body "\\section".toList] = .ok r ∧
      r.current = some g ∧ g.newMissingNewline = false ∧ g.Owes [] ∧
      diff.hunks = [h] ∧ h.lines = [⟨.remove, ['a']⟩, ⟨.add, ['b']⟩] ∧
      h.newMissingNewline = true ∧
      diff.warnings = [.oldCount 0 h.header 2 1, .newCount 0 h.header 2 1] := by
  have hunmarked : DiffLine.IsUnmarked "\\section".toList :=
    ⟨by decide, fun kind => by cases kind <;> decide⟩
  exact ⟨_, _, _, _, rfl, by decide +kernel, hunmarked, rfl, rfl, rfl, rfl,
    (Hunk.wants_ofLines_iff _ _).mp rfl, rfl, rfl, rfl, rfl⟩

end ParsedDiff

end Emend
