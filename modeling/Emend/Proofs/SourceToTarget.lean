import Emend.Proofs.BatchRun
import Emend.Proofs.DeclaredPlace
import Emend.Proofs.Document

/-!
# A diff applied to its source

Hunks that take an old document to a new one (`Takes`) give the new document when they are applied
to the old one. The relation goes through both documents side by side: between hunks the lines are
the same, and a hunk stands after as many lines of each document as its header says.

On the way the state of the batch is the new document so far, followed by the rest of the old one
(`HunkState.Stands`). The offset is how much longer the first part is than what it replaces. As it
is computed from the last hunk alone, this needs that the place of that hunk holds the drift of all
hunks before it, and that an insertion before the first line, which is placed by its new side, comes
first. The final break is that of the old document until a hunk reaches its end, and that of the new
one when nothing is left of either (`pendingBreak`). So each hunk is expected exactly where its old
side is, and is placed there without a warning (`Hunk.attempt_of_stands`).
-/

namespace Emend

/-! ## Diffs of two documents -/

/-- What a header writes as the start of a side of `count` lines that stands after `before` lines:
the first of its lines, counted from one, or the line before it if it is empty. -/
def writtenStart (before count : Nat) : Int := if count = 0 then before else before + 1

/-- A hunk that is numbered as one that stands after `old` lines of the old document and `new` lines
of the new one. -/
structure Hunk.Declares (h : Hunk) (old new : Nat) : Prop where
  /-- The header says where the old side stands. -/
  oldStart : h.oldStart = some (writtenStart old h.oldLines.length)
  /-- The header says how many lines the old side has. -/
  oldCount : h.oldCount = h.oldLines.length
  /-- The header says where the new side stands. -/
  newStart : h.newStart = some (writtenStart new h.newLines.length)

/-- Hunks take the rest of an old document, after `o` lines of it, to the rest of a new one, after
`n` lines. A hunk without old lines stands at the line `low` of the old document, counted from zero,
or after it. `oldBreak` and `newBreak` say whether the documents end with a line break. -/
inductive Takes (oldBreak newBreak : Bool) :
    Nat → Nat → Nat → List Hunk → List Text → List Text → Prop
  /-- After the last hunk the documents are the same, final break included if a line is left. -/
  | done {low o n : Nat} {ls : List Text} (same : ls ≠ [] → oldBreak = newBreak) :
      Takes oldBreak newBreak low o n [] ls ls
  /-- Before a hunk the documents have the same lines. The hunk changes something, its sides are
  the next lines of the documents, and it marks the sides that reach the end of a document without a
  final break. The next hunk does not overlap it, and stands further on if it has no old lines. -/
  | hunk {low o n : Nat} {h : Hunk} {hunks : List Hunk} {gap old new : List Text}
      (place : h.oldLines = [] → low ≤ o + gap.length) (changes : h.changes = true)
      (declares : h.Declares (o + gap.length) (n + gap.length))
      (oldMark : h.oldMissingNewline = (!oldBreak && old.isEmpty))
      (newMark : h.newMissingNewline = (!newBreak && new.isEmpty))
      (rest : Takes oldBreak newBreak (o + gap.length + 1) (o + gap.length + h.oldLines.length)
        (n + gap.length + h.newLines.length) hunks old new) :
      Takes oldBreak newBreak low o n (h :: hunks) (gap ++ h.oldLines ++ old)
        (gap ++ h.newLines ++ new)

/-- The hunks are a diff from the old to the new document. -/
structure Document.IsDiff (old new : Document) (hunks : List Hunk) : Prop where
  /-- There is a hunk. -/
  ne_nil : hunks ≠ []
  /-- The hunks take the old document to the new one. -/
  takes : Takes old.finalBreak new.finalBreak 0 0 0 hunks old.lines new.lines

/-! ## The state on the way -/

/-- Whether the document ends with a line break on the way, before the given rests of the old and
the new document. Once the end of the old document is reached lines are added with line breaks. -/
def pendingBreak (oldBreak newBreak : Bool) (old new : List Text) : Bool :=
  if old.isEmpty then !new.isEmpty || newBreak else oldBreak

/-- A state whose lines are those of the new document so far, `n` of them in place of `o` lines of
the old one, followed by the rest of the old document. -/
structure HunkState.Stands (s : HunkState) (oldBreak newBreak : Bool) (o n : Nat)
    (front old new : List Text) : Prop where
  /-- The lines are those of the new document so far and the rest of the old one. -/
  lines : s.lines = front ++ old
  /-- There are `n` lines of the new document. -/
  length : front.length = n
  /-- The offset is what the lines so far have grown by. -/
  offset : s.offset = (n : Int) - o
  /-- The final break is that on the way. -/
  finalBreak : s.finalBreak = pendingBreak oldBreak newBreak old new

/-- The final break before a diff is that of the old document. -/
theorem Document.pendingBreak_lines (old new : Document) :
    pendingBreak old.finalBreak new.finalBreak old.lines new.lines = old.finalBreak := by
  unfold pendingBreak
  by_cases hold : old.lines = []
  · rw [hold, Document.finalBreak_of_lines_eq_nil hold]
    by_cases hnew : new.lines = []
    · simp [hnew, Document.finalBreak_of_lines_eq_nil hnew]
    · simp [hnew]
  · simp [hold]

namespace Hunk

/-- A hunk that changes something has a line on one of its sides. -/
theorem newLines_ne_nil {h : Hunk} (hc : h.changes = true) (hold : h.oldLines = []) :
    h.newLines ≠ [] := by
  obtain ⟨l, hl, hkind⟩ := List.any_eq_true.mp hc
  have hadd : l.kind = .add := by
    have hside : h.oldSide = [] := List.map_eq_nil_iff.mp hold
    have hnot := List.filter_eq_nil_iff.mp hside l hl
    simpa using hnot
  have hmem : l.text ∈ h.newLines :=
    List.mem_map_of_mem (List.mem_filter.mpr ⟨hl, by rw [hadd]; rfl⟩)
  exact List.ne_nil_of_mem hmem

/-- A numbered hunk is expected at the line it declares, moved by the offset, or, before the first
line and without old lines, where its new side stands. -/
theorem expectedLine_of_declares {h : Hunk} {p q : Nat} (hd : h.Declares p q)
    (hc : h.changes = true) (offset : Int) (cursor : Nat) :
    h.expectedLine offset cursor = if p = 0 ∧ h.oldLines = [] then (q : Int) else p + offset := by
  unfold expectedLine
  rw [hd.oldStart, hd.newStart, hd.oldCount, Option.getD_some]
  dsimp only
  by_cases hold : h.oldLines = []
  · -- Without old lines the hunk adds lines, so that its new start counts from one.
    have hnew : h.newLines.length ≠ 0 := mt List.length_eq_zero_iff.mp (newLines_ne_nil hc hold)
    have hp : writtenStart p h.oldLines.length = p := if_pos (List.length_eq_zero_iff.mpr hold)
    have hq : writtenStart q h.newLines.length = q + 1 := if_neg hnew
    have hplace : declaredLine p 0 = p := by
      rw [declaredLine, if_neg (by decide)]
      omega
    rw [hp, hq, hold, List.length_nil, Int.natCast_zero, hplace]
    by_cases hp0 : p = 0
    · rw [if_pos (by omega), if_pos ⟨hp0, rfl⟩]
      omega
    · rw [if_neg (by omega), if_neg (by omega)]
  · have hlength : h.oldLines.length ≠ 0 := mt List.length_eq_zero_iff.mp hold
    have hp : writtenStart p h.oldLines.length = p + 1 := if_neg hlength
    have hplace : declaredLine (p + 1) h.oldLines.length = p := by
      rw [declaredLine, if_pos (by omega)]
      omega
    rw [hp, hplace, if_neg (by omega), if_neg (fun hno => hold hno.2)]

/-- The marks of a hunk keep the final break on the way. -/
theorem finalBreakAfter_pendingBreak {h : Hunk} {oldBreak newBreak : Bool} {old new : List Text}
    (oldMark : h.oldMissingNewline = (!oldBreak && old.isEmpty))
    (newMark : h.newMissingNewline = (!newBreak && new.isEmpty)) (stop : Nat)
    (oldFront newFront : List Text) :
    h.finalBreakAfter stop (stop + old.length)
        (pendingBreak oldBreak newBreak (oldFront ++ old) (newFront ++ new)) =
      pendingBreak oldBreak newBreak old new := by
  unfold finalBreakAfter
  rw [oldMark, newMark]
  cases old with
  | cons l ls => simp [pendingBreak]
  | nil => cases oldBreak <;> cases newBreak <;> cases new <;> simp [pendingBreak]

section Step

variable {h : Hunk} {s : HunkState} {oldBreak newBreak : Bool} {low o n : Nat}
  {front gap old new : List Text}

/-- A hunk of a diff is placed where its old side is, without a warning, and the state after it
stands behind the hunk. -/
theorem attempt_of_stands (maxFuzz : Nat) (place : h.oldLines = [] → low ≤ o + gap.length)
    (changes : h.changes = true) (declares : h.Declares (o + gap.length) (n + gap.length))
    (oldMark : h.oldMissingNewline = (!oldBreak && old.isEmpty))
    (newMark : h.newMissingNewline = (!newBreak && new.isEmpty)) (hfirst : low = 0 → o = n)
    (hs : s.Stands oldBreak newBreak o n front (gap ++ h.oldLines ++ old)
      (gap ++ h.newLines ++ new)) :
    ∃ p, (attempt maxFuzz s h).value = .placed p ∧ p.warnings = [] ∧
      p.next.Stands oldBreak newBreak (o + gap.length + h.oldLines.length)
        (n + gap.length + h.newLines.length) (front ++ gap ++ h.newLines) old new := by
  obtain ⟨hlines, hlength, hoffset, hbreak⟩ := hs
  have hfront : (front ++ gap).length = n + gap.length := by rw [List.length_append, hlength]
  have hlines' : s.lines = front ++ gap ++ h.oldLines ++ old := by
    rw [hlines]
    simp only [List.append_assoc]
  -- Only the first hunk adds lines before the first line, where both documents are at their start.
  have hstart : o + gap.length = 0 ∧ h.oldLines = [] → n + gap.length = 0 := by
    rintro ⟨hzero, hold⟩
    have hlow := place hold
    omega
  have hexpected : h.expectedLine s.offset s.cursor = (front ++ gap).length := by
    rw [expectedLine_of_declares declares changes, hfront, hoffset]
    split
    · next hadds =>
      have hzero := hstart hadds
      omega
    · omega
  -- The old side stands at the expected line, where the search for an anchor ends.
  obtain ⟨confidence, hfind⟩ := Anchor.find_of_declared h (front ++ gap) old maxFuzz
  rw [← hlines', ← hexpected] at hfind
  have hvalue := attempt_value maxFuzz s h
  rw [if_pos changes, hfind] at hvalue
  refine ⟨_, hvalue, rfl, ?_⟩
  have hnumbered : h.isNumbered = true := by
    rw [isNumbered, declares.oldStart]
    rfl
  -- The hunk leaves its new lines there, and an offset that is taken from its own line alone.
  have hput := put_of_declared ⟨(front ++ gap).length, .declaredPosition, confidence, none⟩
    hlines' rfl rfl
  rw [if_pos hnumbered, expectedLine_of_declares declares changes, hbreak, hfront,
    finalBreakAfter_pendingBreak oldMark newMark] at hput
  show (h.put s _).Stands _ _ _ _ _ _ _
  rw [hfront, hput]
  refine ⟨rfl, ?_, ?_, rfl⟩
  · rw [List.length_append, hfront]
  · dsimp only
    split
    · next hadds =>
      have hzero := hstart hadds
      omega
    · omega

end Step

end Hunk

/-! ## The whole diff -/

/-- A run over the hunks of a diff places all of them without a warning, and ends with the lines and
the final break of the new document. -/
theorem Hunk.run_takes (options : Options) (ending : LineEnding) (strict telemetry : Bool)
    {oldBreak newBreak : Bool} {low o n : Nat} {hunks : List Hunk} {old new : List Text}
    (h : Takes oldBreak newBreak low o n hunks old new) (hfirst : low = 0 → o = n) (s : HunkState)
    (t : Tally) (front : List Text) (hs : s.Stands oldBreak newBreak o n front old new) :
    ∃ s' t', ((batch options ending).run strict telemetry s t hunks).value = .finished s' t' ∧
      s'.lines = front ++ new ∧ s'.finalBreak = newBreak ∧
      t' = { t with applied := t.applied + hunks.length, records := t'.records } := by
  induction h generalizing s t front with
  | @done low o n ls same =>
    refine ⟨s, t, rfl, hs.lines, ?_, rfl⟩
    rw [hs.finalBreak, pendingBreak]
    -- With no line left the break is that of the new document, otherwise both breaks are the same.
    cases ls with
    | nil => rfl
    | cons l ls => exact same (List.cons_ne_nil l ls)
  | @hunk low o n h hunks gap old new place changes declares oldMark newMark rest ih =>
    -- The hunk moves the state on, and no hunk after it stands at the first line.
    obtain ⟨p, hplaced, hwarnings, hnext⟩ :=
      attempt_of_stands options.maxFuzz place changes declares oldMark newMark hfirst hs
    obtain ⟨s', t', hrun, hlines, hbreak, ht⟩ :=
      ih (fun h0 => absurd h0 (Nat.succ_ne_zero _)) p.next (t.place telemetry p) _ hnext
    have hplaced' : ((batch options ending).attempt s h).value = .placed p := hplaced
    refine ⟨s', t', ?_, ?_, hbreak, ?_⟩
    · rw [Batch.run_of_placed hplaced', hrun]
    · rw [hlines]
      simp only [List.append_assoc]
    · rw [ht, Tally.place, hwarnings, List.append_nil, List.length_cons, Nat.add_assoc,
        Nat.add_comm 1]

/-- A diff of two documents that is applied to the old one gives the new one, in the style that
shows in the old one: every hunk is applied, and nothing is odd about any of them. -/
theorem Document.applyAll_of_isDiff (options : Options) (warnings : List Warning)
    (ending : LineEnding) {old new : Document} {hunks : List Hunk} (h : old.IsDiff new hunks) :
    let o := (Hunk.applyAll options (old.text ending) hunks warnings).value
    o.content = new.text (old.style ending) ∧ o.total = hunks.length ∧
      o.applied = hunks.length ∧ o.failed = 0 ∧ o.errors = [] ∧ o.warnings = warnings ∧
      o.failures = [] := by
  intro o
  have hstart : (HunkState.ofContent (old.text .lf)).Stands old.finalBreak new.finalBreak 0 0 []
      old.lines new.lines := by
    rw [HunkState.ofContent_text]
    exact ⟨rfl, rfl, rfl, (pendingBreak_lines old new).symm⟩
  obtain ⟨s, t, hrun, hlines, hbreak, ht⟩ := Hunk.run_takes options (old.style ending)
    options.strict options.telemetry h.takes (fun _ => rfl) _ (.initial warnings) [] hstart
  have happlied : t.applied ≠ 0 := by
    have hlength := mt List.length_eq_zero_iff.mp h.ne_nil
    rw [ht]
    show 0 + hunks.length ≠ 0
    omega
  have ho : o = (Hunk.batch options (old.style ending)).outcome (old.text ending) hunks
      (.finished s t) := by
    show (Hunk.applyAll options (old.text ending) hunks warnings).value = _
    rw [Hunk.applyAll, Batch.apply_value, dominantEnding_text, unifyEndings_text, hrun]
  rw [ho]
  refine ⟨?_, rfl, ?_, ?_, ?_, ?_, ?_⟩
  · rw [Batch.outcome, if_neg happlied]
    exact HunkState.writeEndings_content hlines hbreak (old.style ending)
  · rw [Batch.outcome, ht]
    exact Nat.zero_add _
  all_goals
    rw [Batch.outcome, ht]
    rfl

/-- A document of four lines, the last one without an ending. -/
def Document.fourLines : Document :=
  ⟨[['a'], ['b'], ['c']], ['d'], by decide, by decide⟩

/-- The four lines with one more in front, two in place of the second, and another last one. -/
def Document.sixLines : Document :=
  ⟨[['x'], ['a'], ['B'], ['C'], ['c'], ['e']], [], by decide, by decide⟩

/-- The hunks that make six lines of the four: the first is placed by its new side, and the last
reaches the end. -/
def fourToSix : List Hunk :=
  [⟨0, some 0, 0, some 1, 1, [⟨.add, ['x']⟩], [], false, false⟩,
    ⟨1, some 2, 1, some 3, 2, [⟨.remove, ['b']⟩, ⟨.add, ['B']⟩, ⟨.add, ['C']⟩], [], false, false⟩,
    ⟨2, some 4, 1, some 6, 1, [⟨.remove, ['d']⟩, ⟨.add, ['e']⟩], [], true, false⟩]

/-- The hunks are a diff from the four lines to the six. -/
theorem fourToSix_isDiff : Document.fourLines.IsDiff .sixLines fourToSix where
  ne_nil := by decide
  takes :=
    @Takes.hunk false true 0 0 0 _ _ [] [['a'], ['b'], ['c'], ['d']]
      [['a'], ['B'], ['C'], ['c'], ['e']] (by decide) rfl ⟨rfl, rfl, rfl⟩ rfl rfl <|
    @Takes.hunk false true 1 0 1 _ _ [['a']] [['c'], ['d']] [['c'], ['e']]
      (by decide) rfl ⟨rfl, rfl, rfl⟩ rfl rfl <|
    @Takes.hunk false true 2 2 4 _ _ [['c']] [] []
      (by decide) rfl ⟨rfl, rfl, rfl⟩ rfl rfl <|
    .done fun h => absurd rfl h

/-- Both carriage return and line feed are kept where the four lines become six. -/
theorem Document.applyAll_fourToSix :
    Document.fourLines.IsDiff .sixLines fourToSix ∧
    let o := (Hunk.applyAll .default (Document.fourLines.text .crlf) fourToSix []).value
    o.content = Document.sixLines.text (Document.fourLines.style .crlf) ∧ o.total = 3 ∧
      o.applied = 3 ∧ o.failed = 0 ∧ o.errors = [] ∧ o.warnings = [] ∧ o.failures = [] :=
  ⟨fourToSix_isDiff, Document.applyAll_of_isDiff .default [] .crlf fourToSix_isDiff⟩

end Emend
