import Emend.Proofs.AnchorFit
import Emend.Proofs.BatchRun
import Emend.Proofs.Characters
import Emend.Proofs.Indentation
import Emend.Proofs.Lines

/-!
# Hunks are put in surgically

A hunk that is applied changes one region of the lines of a document, of as many lines as its old
side has, and within it only what it says (`Hunk.Surgery`): lines at its context stay as the
document has them, lines that are dropped are its removed lines and lines that are put in its added
lines, up to the spaces around them.

The hunk and the region are gone through side by side. The region fits the old side line by line
(`FitsAt`, from the anchor search), so that rebuilding it meets a line of the region for each line
of the old side (`turns_rebuildWith`). From this a hunk at its anchor is put in surgically
(`surgery_put`), whatever the lines are by then. On the way through a diff no line ever holds a line
break (`isPlain_of_run`), so that the lines in question are the lines of a text.
-/

namespace Emend

namespace Hunk

/-- What the lines of a hunk make of a region, line by line. -/
inductive Turns : List HunkLine → List Text → List Text → Prop
  /-- Without lines there is nothing. -/
  | nil : Turns [] [] []
  /-- At context the line of the region stays. -/
  | context {ls : List HunkLine} {region new : List Text} (text line : Text)
    (rest : Turns ls region new) : Turns (⟨.context, text⟩ :: ls) (line :: region) (line :: new)
  /-- A line of the region is dropped that is the removed one up to the spaces around it. -/
  | remove {ls : List HunkLine} {region new : List Text} {text line : Text}
    (same : line.strip = text.strip) (rest : Turns ls region new) :
    Turns (⟨.remove, text⟩ :: ls) (line :: region) new
  /-- A line is put in that is the added one up to the spaces around it. -/
  | add {ls : List HunkLine} {region new : List Text} {text line : Text}
    (same : line.strip = text.strip) (rest : Turns ls region new) :
    Turns (⟨.add, text⟩ :: ls) region (line :: new)

/-- A hunk changes the lines of a document in one region, and all lines outside of it stay. The
region has as many lines as the old side, which turn into the new ones as the hunk says. At most so
many of them differ from the old side by more than the spaces around them, and if there are any, one
of them does not. -/
inductive Surgery (h : Hunk) (maxFuzz : Nat) : List Text → List Text → Prop
  /-- The lines around the region, the region, and what it becomes. -/
  | intro (front region new back : List Text) (size : region.length = h.oldLines.length)
    (turns : Turns h.lines region new) (fuzz : differing h.oldSide region ≤ maxFuzz)
    (fits : h.oldLines ≠ [] → ∃ p ∈ h.oldSide.zip region, p.2.strip = p.1.text.strip) :
    Surgery h maxFuzz (front ++ region ++ back) (front ++ new ++ back)

/-! ## One hunk -/

/-- A region that fits the old side is rebuilt as the hunk says, if lines are put in unchanged but
for the spaces around them. -/
theorem turns_rebuildWith {insert : Text → Text} (hinsert : ∀ t, (insert t).strip = t.strip)
    {ls : List HunkLine} {region : List Text}
    (h : List.Forall₂ HunkLine.Allows (ls.filter (·.kind != .add)) region) :
    Turns ls region (rebuildWith insert ls region) := by
  induction ls generalizing region with
  | nil =>
    cases h
    exact .nil
  | cons l ls ih =>
    obtain ⟨kind, text⟩ := l
    cases kind with
    | context =>
      obtain ⟨line, rest, -, hrest, rfl⟩ := List.forall₂_cons_left_iff.mp h
      exact .context text line (ih hrest)
    | remove =>
      obtain ⟨line, rest, hline, hrest, rfl⟩ := List.forall₂_cons_left_iff.mp h
      exact .remove (hline rfl) (ih hrest)
    | add => exact .add (hinsert text) (ih h)

/-- An added line is put in unchanged but for its indentation. -/
theorem strip_inserted (h : Hunk) (region : List Text) (loose : Bool) (text : Text) :
    (h.inserted region loose text).strip = text.strip := by
  unfold inserted
  dsimp only
  split
  · exact Text.strip_moveIndent (fun _ => Text.isIndent_of_mem_indent)
      (fun _ => Text.isIndent_of_mem_indent) text
  · rfl

/-- Where a hunk fits the lines at an anchor, the region there has as many lines as the old side,
and rebuilding it does what the hunk says. -/
theorem turns_rebuild {h : Hunk} {s : HunkState} {a : Anchor} {maxFuzz : Nat}
    (hfits : FitsAt s.lines h.oldSide maxFuzz a.position) :
    ((s.lines.drop a.position).take h.oldLines.length).length = h.oldLines.length ∧
      Turns h.lines ((s.lines.drop a.position).take h.oldLines.length)
        (h.rebuild ((s.lines.drop a.position).take h.oldLines.length) a.level.isLoose) := by
  have hsize : h.oldLines.length = h.oldSide.length := List.length_map _
  have hinside := hfits.inside
  have hallows := hfits.allows
  rw [← hsize] at hinside hallows
  refine ⟨?_, turns_rebuildWith (h.strip_inserted _ _) hallows⟩
  rw [List.length_take, List.length_drop]
  omega

/-- A hunk that fits the lines at an anchor is put in surgically there. -/
theorem surgery_put {h : Hunk} {s : HunkState} {a : Anchor} {maxFuzz : Nat}
    (hfits : FitsAt s.lines h.oldSide maxFuzz a.position) :
    Surgery h maxFuzz s.lines (h.put s a).lines := by
  obtain ⟨hlength, hturns⟩ := turns_rebuild hfits
  obtain ⟨-, -, hfuzz, hsome⟩ := hfits
  have hsize : h.oldLines.length = h.oldSide.length := List.length_map _
  rw [← hsize] at hfuzz hsome
  have hparts : s.lines.take a.position ++ (s.lines.drop a.position).take h.oldLines.length ++
      s.lines.drop (a.position + h.oldLines.length) = s.lines := by
    rw [List.append_assoc, ← List.drop_drop, List.take_append_drop, List.take_append_drop]
  have hsame : h.oldLines ≠ [] →
      ∃ p ∈ h.oldSide.zip ((s.lines.drop a.position).take h.oldLines.length),
        p.2.strip = p.1.text.strip := fun hne =>
    exists_same_of_differing_lt (hlength.trans hsize)
      ((hsome (mt List.map_eq_nil_iff.mpr hne)).trans_eq hsize)
  have hsurgery := Surgery.intro (s.lines.take a.position) _ _
    (s.lines.drop (a.position + h.oldLines.length)) hlength hturns hfuzz hsame
  rw [hparts] at hsurgery
  exact hsurgery

/-- A hunk that is placed is put in surgically. -/
theorem surgery_of_attempt {h : Hunk} {s : HunkState} {maxFuzz : Nat} {p : Placement HunkState}
    (hp : (attempt maxFuzz s h).value = .placed p) : Surgery h maxFuzz s.lines p.next.lines := by
  obtain ⟨a, -, ha, rfl⟩ := placement_of_attempt hp
  exact surgery_put (Anchor.fitsAt_of_find ha)

/-! ## Runs -/

/-- The lines of a text with unified endings hold no line breaks. -/
theorem isPlain_of_mem_ofContent {content l : Text}
    (hl : l ∈ (HunkState.ofContent content.unifyEndings).lines) : l.IsPlain := by
  unfold HunkState.ofContent at hl
  dsimp only at hl
  split at hl
  · cases hl
  · constructor
    · have hline : l ∈ content.unifyEndings.lines := Text.mem_lines_of_mem_bodyLines hl
      exact fun hc => absurd (Text.forall_of_mem_cut hline '\n' hc) (by decide)
    · exact fun hc => content.cr_notMem_unifyEndings (Text.mem_of_mem_bodyLines hl hc)

/-- A placed hunk without line breaks brings none into the lines. -/
theorem isPlain_of_attempt {h : Hunk} {s : HunkState} {maxFuzz : Nat} {p : Placement HunkState}
    (hp : (attempt maxFuzz s h).value = .placed p) (hh : ∀ l ∈ h.lines, l.text.IsPlain)
    (hs : ∀ l ∈ s.lines, l.IsPlain) : ∀ l ∈ p.next.lines, l.IsPlain := by
  obtain ⟨a, -, -, rfl⟩ := placement_of_attempt hp
  intro l hl
  constructor
  · intro hc
    rcases mem_lines_put hl hc with ⟨m, hm, hc⟩ | ⟨x, hx, hc⟩
    · exact (hs m hm).1 hc
    · exact (hh x hx).1 hc
  · intro hc
    rcases mem_lines_put hl hc with ⟨m, hm, hc⟩ | ⟨x, hx, hc⟩
    · exact (hs m hm).2 hc
    · exact (hh x hx).2 hc

/-- Whatever hunks without line breaks were applied to a document, none of its lines holds one. -/
theorem isPlain_of_run {options : Options} {content : Text} {warnings : List Warning}
    {before : List Hunk} (hplain : ∀ h ∈ before, ∀ l ∈ h.lines, l.text.IsPlain)
    {strict telemetry : Bool} {ending : LineEnding} {s : HunkState} {t : Tally}
    (hrun : ((batch options ending).run strict telemetry (HunkState.ofContent content.unifyEndings)
      (.initial warnings) before).value = .finished s t) : ∀ l ∈ s.lines, l.IsPlain := by
  have hstart : ∀ l ∈ (HunkState.ofContent content.unifyEndings).lines, l.IsPlain :=
    fun l hl => isPlain_of_mem_ofContent hl
  exact Batch.run_invariant (P := fun s => ∀ l ∈ s.lines, l.IsPlain)
    (fun h hh s p hp hs => isPlain_of_attempt hp (hplain h hh) hs) hstart hrun

/-- In a call on a document every hunk that is placed is put in surgically, into the lines that the
hunks before it left, and the search for its place never leaves those lines. -/
theorem run_surgical (options : Options) (content : Text) (warnings : List Warning)
    {hunks before after : List Hunk} {h : Hunk}
    (hplain : ∀ g ∈ hunks, ∀ l ∈ g.lines, l.text.IsPlain) (hhunks : hunks = before ++ h :: after)
    {s : HunkState} {t : Tally}
    (hrun : ((batch options content.dominantEnding).run options.strict options.telemetry
      (HunkState.ofContent content.unifyEndings) (.initial warnings) before).value =
        .finished s t) :
    (∀ l ∈ s.lines, l.IsPlain) ∧
    (h.oldLines.length ≤ s.lines.length →
      ∀ place ∈ Anchor.tried s.lines h.oldLines.length (h.expectedLine s.offset s.cursor),
        place + h.oldLines.length ≤ s.lines.length) ∧
    ∀ p, (attempt options.maxFuzz s h).value = .placed p →
      (∀ l ∈ p.next.lines, l.IsPlain) ∧ Surgery h options.maxFuzz s.lines p.next.lines := by
  rw [hhunks] at hplain
  obtain ⟨hbefore, hrest⟩ := List.forall_mem_append.mp hplain
  have hlines := isPlain_of_run hbefore hrun
  refine ⟨hlines, fun hle place hplace => ?_, fun p hp => ⟨?_, surgery_of_attempt hp⟩⟩
  · have hlast := le_of_mem_middleOut (clampPlace_le _ _) hplace
    omega
  · exact isPlain_of_attempt hp (List.forall_mem_cons.mp hrest).1 hlines

/-- Options with two lines of fuzz, under which places are kept. -/
def fuzzyOptions : Options := ⟨false, true, [.exact], .finite false 1, 2⟩

/-- A document with an indented line. -/
def indentedLines : Text := "one\n  two\nthree\nfour\n".toList

/-- A hunk that adds a first line. -/
def openingHunk : Hunk :=
  ⟨0, some 0, 0, some 1, 1, [⟨.add, "zero".toList⟩], "@@ -0,0 +1,1 @@".toList, false, false⟩

/-- A hunk that declares a line far behind the end. Its lines have other spaces around them, and the
last one is another line altogether. -/
def strayHunk : Hunk :=
  ⟨1, some 40, 3, some 41, 3,
    [⟨.context, "two".toList⟩, ⟨.remove, "three ".toList⟩, ⟨.add, "drei".toList⟩,
      ⟨.context, "five".toList⟩], "@@ -40,3 +41,3 @@".toList, false, false⟩

/-- The state that the hunk before it leaves. -/
def openedLines : HunkState :=
  ⟨["zero".toList, "one".toList, "  two".toList, "three".toList, "four".toList], true, 1, 1⟩

/-- The stray hunk keeps the line that differs, and its added line gets the indentation of the
document. -/
theorem run_surgical_strayHunk :
    (∀ g ∈ [openingHunk, strayHunk], ∀ l ∈ g.lines, l.text.IsPlain) ∧
    ∃ t, ((batch fuzzyOptions indentedLines.dominantEnding).run fuzzyOptions.strict
        fuzzyOptions.telemetry (HunkState.ofContent indentedLines.unifyEndings) (.initial [])
        [openingHunk]).value = .finished openedLines t ∧
      ∃ p, (attempt fuzzyOptions.maxFuzz openedLines strayHunk).value = .placed p ∧
        p.next.lines =
          ["zero".toList, "one".toList, "  two".toList, "  drei".toList, "four".toList] ∧
        Surgery strayHunk fuzzyOptions.maxFuzz openedLines.lines p.next.lines := by
  have hplain : ∀ g ∈ [openingHunk, strayHunk], ∀ l ∈ g.lines, l.text.IsPlain := by decide
  obtain ⟨t, hrun⟩ : ∃ t, ((batch fuzzyOptions indentedLines.dominantEnding).run
      fuzzyOptions.strict fuzzyOptions.telemetry (HunkState.ofContent indentedLines.unifyEndings)
      (.initial []) [openingHunk]).value = .finished openedLines t := ⟨_, rfl⟩
  obtain ⟨-, -, hplaced⟩ := run_surgical fuzzyOptions indentedLines [] hplain rfl hrun
  exact ⟨hplain, t, hrun, _, rfl, rfl, (hplaced _ rfl).2⟩

end Hunk

end Emend
