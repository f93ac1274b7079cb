import Emend.Hunk.Reader
import Emend.Proofs.HunkText

/-!
# Hunks as they are read

A hunk that can be written (`Hunk.Writable`) is given back by its own header and rows: reading the
rows one by one collects its lines and sets its two marks of a missing line feed
(`Hunk.foldl_readRow_rows`), and closing it neither drops a line nor finds a wrong count
(`Hunk.finish_readback`).
-/

namespace Emend

/-- What a written hunk needs to be read back. It is numbered and its counts are those of its lines;
it has lines, without line breaks. A side without a final line feed has a last line, and where that
line is context the other side ends with it too, without a line feed as well. -/
structure Hunk.Writable (h : Hunk) : Prop where
  /-- Both sides say where they stand. -/
  starts : ∃ a c : Nat, h.oldStart = some (a : Int) ∧ h.newStart = some (c : Int)
  /-- The old count is the number of old lines. -/
  oldCount_eq : h.oldCount = h.oldLines.length
  /-- The new count is the number of new lines. -/
  newCount_eq : h.newCount = h.newLines.length
  /-- There is a line. -/
  lines_ne_nil : h.lines ≠ []
  /-- A line holds no line break. -/
  lines_plain : ∀ l ∈ h.lines, l.text.IsPlain
  /-- A side without a final line feed has a last line, which lacks it on all its sides. -/
  last_of_missing : ∀ s, h.missing s = true → ∃ l, (h.lines.filter s.has).getLast? = some l ∧
    (l.kind = .context → ∀ s', h.missing s' = true)

/-- A line that is not context is on one side only. -/
theorem Side.eq_of_has {s s' : Side} {l : HunkLine} (hkind : l.kind ≠ .context)
    (h : s.has l = true) (h' : s'.has l = true) : s = s' := by
  obtain ⟨kind, text⟩ := l
  revert hkind h h'
  cases kind <;> cases s <;> cases s' <;> simp [Side.has]

namespace Hunk

variable {h : Hunk}

/-! ## Marks -/

/-- A line ends a side without a final line feed if no later line is on that side. -/
theorem endsMissing_iff {l : HunkLine} {later : List HunkLine} :
    h.endsMissing l later = true ↔
      ∃ s, h.missing s = true ∧ s.has l = true ∧ ∀ x ∈ later, ¬ s.has x = true := by
  have hside : ∀ s : Side, (h.missing s && s.has l && !later.any s.has) = true ↔
      h.missing s = true ∧ s.has l = true ∧ ∀ x ∈ later, ¬ s.has x = true := by
    intro s
    simp [and_assoc]
  rw [endsMissing, List.any_eq_true]
  constructor
  · rintro ⟨s, -, hs⟩
    exact ⟨s, (hside s).mp hs⟩
  · rintro ⟨s, hs⟩
    refine ⟨s, ?_, (hside s).mpr hs⟩
    cases s <;> simp

/-- Whether one of the rows after the last lines says that a side has no final line feed. -/
def marks (h : Hunk) (s : Side) : List HunkLine → Bool
  | [] => false
  | l :: later => (h.endsMissing l later && s.has l) || h.marks s later

/-- A side is marked by a row after a line of it. -/
theorem marks_iff {s : Side} {ls : List HunkLine} :
    h.marks s ls = true ↔ ∃ front l later, ls = front ++ l :: later ∧
      h.endsMissing l later = true ∧ s.has l = true := by
  induction ls with
  | nil => simp [marks]
  | cons x ls ih =>
    rw [marks, Bool.or_eq_true, Bool.and_eq_true, ih]
    constructor
    · rintro (⟨hends, hs⟩ | ⟨front, l, later, rfl, hl⟩)
      · exact ⟨[], x, ls, rfl, hends, hs⟩
      · exact ⟨x :: front, l, later, rfl, hl⟩
    · rintro ⟨front, l, later, hls, hl⟩
      cases front with
      | nil =>
        obtain ⟨rfl, rfl⟩ := List.cons.inj hls
        exact .inl hl
      | cons y front => exact .inr ⟨front, l, later, (List.cons.inj hls).2, hl⟩

/-- The last line of some kind is the one that none of its kind follows. -/
theorem getLast?_filter_eq_some_iff {p : HunkLine → Bool} {ls : List HunkLine} {l : HunkLine} :
    (ls.filter p).getLast? = some l ↔
      p l = true ∧ ∃ front later, ls = front ++ l :: later ∧ ∀ x ∈ later, ¬ p x = true := by
  rw [List.getLast?_eq_head?_reverse, ← List.filter_reverse, List.head?_filter,
    List.find?_eq_some_iff_append]
  refine and_congr_right fun _ => ⟨?_, ?_⟩
  · rintro ⟨later, front, hls, hlater⟩
    refine ⟨front.reverse, later.reverse, ?_, ?_⟩
    · rw [← List.reverse_reverse ls, hls]
      simp
    · intro x hx
      simpa using hlater x (List.mem_reverse.mp hx)
  · rintro ⟨front, later, rfl, hlater⟩
    refine ⟨later.reverse, front.reverse, ?_, ?_⟩
    · simp
    · intro x hx
      simpa using hlater x (List.mem_reverse.mp hx)

/-- The rows of a hunk mark the sides that have no final line feed, and no other. -/
theorem Writable.marks_lines (hw : h.Writable) (s : Side) : h.marks s h.lines = h.missing s := by
  rw [Bool.eq_iff_iff, marks_iff]
  constructor
  · rintro ⟨front, l, later, hlines, hends, hs⟩
    -- The row is there for a side `s'` that ends with `l` and has no final line feed.
    obtain ⟨s', hmissing, hs', hlater⟩ := endsMissing_iff.mp hends
    obtain ⟨x, hlast, hcontext⟩ := hw.last_of_missing s' hmissing
    have hl : (h.lines.filter s'.has).getLast? = some l :=
      getLast?_filter_eq_some_iff.mpr ⟨hs', front, later, hlines, hlater⟩
    obtain rfl : l = x := Option.some.inj (hl.symm.trans hlast)
    -- If `l` is on both sides, both have no final line feed; otherwise `s'` is its only side.
    by_cases hkind : l.kind = .context
    · exact hcontext hkind s
    · rw [Side.eq_of_has hkind hs hs']
      exact hmissing
  · -- The row after the last line of the side marks it.
    intro hmissing
    obtain ⟨l, hlast, -⟩ := hw.last_of_missing s hmissing
    obtain ⟨hs, front, later, hlines, hlater⟩ := getLast?_filter_eq_some_iff.mp hlast
    exact ⟨front, l, later, hlines, endsMissing_iff.mpr ⟨s, hmissing, hs, hlater⟩, hs⟩

/-- A mark adds no line. -/
theorem lines_markMissing (g : Hunk) : g.markMissing.lines = g.lines := by
  unfold markMissing
  split <;> rfl

/-! ## Rows -/

/-- A hunk with one more row. -/
def readRow (g : Hunk) : DiffRow → Hunk
  | .line l => g.push l.kind l.text
  | .noNewline => g.markMissing

/-- Rows add their lines and their marks. -/
theorem foldl_readRow (h g : Hunk) (ls : List HunkLine) :
    (h.rowsFrom ls).foldl readRow g = { g with
      lines := g.lines ++ ls
      oldMissingNewline := g.oldMissingNewline || h.marks .old ls
      newMissingNewline := g.newMissingNewline || h.marks .new ls } := by
  induction ls generalizing g with
  | nil => simp [rowsFrom, marks]
  | cons l later ih =>
    rw [rowsFrom, List.foldl_append, ih]
    -- A mark is put on the sides of the line before it.
    by_cases hends : h.endsMissing l later = true
    · simp [hends, readRow, push, markMissing, marks, Side.has, Bool.or_assoc]
    · simp [hends, readRow, push, marks]

/-- A hunk as it is read back, with its place in the diff and the header that was written. -/
def readback (h : Hunk) (index : Nat) : Hunk := { h with index := index, header := h.writtenHeader }

/-- A hunk as its header opens it, without its lines and their marks. -/
def opened (h : Hunk) (index : Nat) : Hunk :=
  { h.readback index with lines := [], oldMissingNewline := false, newMissingNewline := false }

/-- The header of a hunk opens it. -/
theorem Writable.ofHeader?_writtenHeader (hw : h.Writable) (index : Nat) :
    ofHeader? index h.writtenHeader = some (h.opened index) := by
  obtain ⟨a, c, ha, hc⟩ := hw.starts
  have hnumbered := ofNumbered?_headerText index a h.oldLines.length c h.newLines.length
  have hheader : h.writtenHeader = headerText a h.oldLines.length c h.newLines.length := by
    rw [writtenHeader, ha, hc, hw.oldCount_eq, hw.newCount_eq]
    rfl
  unfold ofHeader? opened readback
  rw [hheader, hnumbered, ha, hc, hw.oldCount_eq, hw.newCount_eq]

/-- A header opens a hunk without lines. -/
theorem lines_of_ofHeader? {index : Nat} {line : Text} {g : Hunk}
    (hheader : ofHeader? index line = some g) : g.lines = [] := by
  unfold ofHeader? ofNumbered? at hheader
  grind

/-- The rows of a hunk give the rest of it. -/
theorem Writable.foldl_readRow_rows (hw : h.Writable) (index : Nat) :
    h.rows.foldl readRow (h.opened index) = h.readback index := by
  rw [rows, foldl_readRow, hw.marks_lines .old, hw.marks_lines .new]
  rfl

/-! ## End of a hunk -/

/-- No padding is dropped if the count asks for all lines. -/
theorem dropPadding_of_le {count : Int} {ls : List HunkLine}
    (hcount : (ls.countP (·.kind != .add) : Int) ≤ count) : dropPadding (some count) ls = ls := by
  cases ls with
  | nil => rfl
  | cons l ls =>
    have hspare : decide (count < ((l :: ls).countP (·.kind != .add) : Int)) = false :=
      decide_eq_false (by omega)
    unfold dropPadding
    dsimp only
    rw [hspare, Bool.and_false, if_neg Bool.false_ne_true]

/-- Lines without the padding in front are the last of them. -/
theorem dropPadding_suffix (needed : Option Int) (ls : List HunkLine) :
    dropPadding needed ls <:+ ls := by
  induction ls with
  | nil => exact List.suffix_refl []
  | cons l ls ih =>
    have hcases : dropPadding needed (l :: ls) = dropPadding needed ls ∨
        dropPadding needed (l :: ls) = l :: ls := by
      simp only [dropPadding]
      exact ite_eq_or_eq (_ = true) _ _
    rcases hcases with hdrop | hdrop
    · rw [hdrop]
      exact ih.trans (List.suffix_cons l ls)
    · exact ⟨[], hdrop⟩

/-- A hunk keeps the first of its lines at its end. -/
theorem lines_prefix_of_finish {g t : Hunk} {ws : List Warning}
    (hfinish : g.finish = .ok (t, ws)) : t.lines <+: g.lines := by
  have htrimmed : g.trimmed.lines <+: g.lines := by
    rw [← List.reverse_suffix, trimmed, List.reverse_reverse]
    exact dropPadding_suffix _ _
  unfold finish at hfinish
  dsimp only at hfinish
  split at hfinish
  · cases hfinish
  · split at hfinish <;> cases hfinish <;> exact htrimmed

/-- The end of a hunk that was read back leaves it as it is, and nothing is odd about it. -/
theorem Writable.finish_readback (hw : h.Writable) (index : Nat) :
    (h.readback index).finish = .ok (h.readback index, []) := by
  obtain ⟨a, c, ha, -⟩ := hw.starts
  have hnumbered : (h.readback index).isNumbered = true := by
    rw [isNumbered, readback, ha]
    rfl
  have hcount : ((h.lines.reverse.countP (·.kind != .add) : Nat) : Int) ≤ h.oldCount := by
    rw [List.countP_reverse, List.countP_eq_length_filter, hw.oldCount_eq, oldLines,
      List.length_map]
    exact Int.le_refl _
  have htrimmed : (h.readback index).trimmed = h.readback index := by
    unfold trimmed
    rw [if_pos hnumbered]
    show { h.readback index with
      lines := (dropPadding (some h.oldCount) h.lines.reverse).reverse } = _
    rw [dropPadding_of_le hcount, List.reverse_reverse]
    rfl
  have hwarnings : (h.readback index).countWarnings = [] := by
    have hold : ((h.readback index).oldLines.length : Int) = (h.readback index).oldCount :=
      hw.oldCount_eq.symm
    have hnew : ((h.readback index).newLines.length : Int) = (h.readback index).newCount :=
      hw.newCount_eq.symm
    unfold countWarnings
    dsimp only
    rw [if_pos hold, if_pos hnew]
    rfl
  have hne : (h.readback index).lines.isEmpty = false := by
    rw [Bool.eq_false_iff, Ne, List.isEmpty_iff]
    exact hw.lines_ne_nil
  unfold finish
  dsimp only
  rw [htrimmed, hne, if_neg Bool.false_ne_true, if_pos hnumbered, hwarnings]

end Hunk

end Emend
