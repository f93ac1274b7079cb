import Emend.Hunk.Header
import Emend.Proofs.Lines
import Emend.Proofs.Occurrences
import Mathlib.Data.List.Chain

/-!
# Hunks as they are written

A hunk is written as its header and its rows: each of its lines after the mark of its kind, and a
row that says so after the last line of each side without a final line feed (`Hunk.rows`). The
header is read back as the numbers it was written from (`Hunk.ofNumbered?_headerText`), and each
row is told from the headers of a diff by its first character (`DiffRow.ofLine_text`).

There is one exception: a removed line that starts with two hyphens and a space, directly before an
added line that starts with two pluses and a space, is written like the names of two files
(`Hunk.HasFilePair`). In the rows of a diff no two other lines stand like that
(`isChain_writtenDiff_iff`).
-/

namespace Emend

/-! ## Rows -/

/-- A side of a hunk. -/
inductive Side where
  /-- The lines that are expected. -/
  | old
  /-- The lines that are left. -/
  | new
  deriving DecidableEq

/-- Whether a line is on a side. -/
def Side.has : Side → HunkLine → Bool
  | .old, l => l.kind != .add
  | .new, l => l.kind != .remove

/-- Whether a side has no final line feed. -/
def Hunk.missing (h : Hunk) : Side → Bool
  | .old => h.oldMissingNewline
  | .new => h.newMissingNewline

/-- A row of a written hunk. -/
inductive DiffRow where
  /-- A line of the hunk. -/
  | line (l : HunkLine)
  /-- A row that says that the line before it has no line feed. -/
  | noNewline
  deriving DecidableEq

/-- The mark in front of a line of some kind. -/
def LineKind.mark : LineKind → Char
  | .context => ' '
  | .add => '+'
  | .remove => '-'

/-- The mark of a line tells its kind. -/
theorem LineKind.mark_injective {k k' : LineKind} (h : k.mark = k'.mark) : k = k' := by
  revert h
  cases k <;> cases k' <;> decide

/-- What a row says of a line without a line feed. -/
def noNewlineText : Text := "\\ No newline at end of file".toList

/-- A row as it is written. -/
def DiffRow.text : DiffRow → Text
  | .line l => l.kind.mark :: l.text
  | .noNewline => noNewlineText

namespace Hunk

/-- Whether a line is the last one of a side without a final line feed. -/
def endsMissing (h : Hunk) (l : HunkLine) (later : List HunkLine) : Bool :=
  [Side.old, Side.new].any fun s => h.missing s && s.has l && !later.any s.has

/-- The rows of the last lines of a hunk. -/
def rowsFrom (h : Hunk) : List HunkLine → List DiffRow
  | [] => []
  | l :: later =>
    .line l :: (if h.endsMissing l later then [.noNewline] else []) ++ rowsFrom h later

/-- The rows of a hunk. -/
def rows (h : Hunk) : List DiffRow := h.rowsFrom h.lines

/-- A side of a numbered header as it is written: its start and its count. -/
def sideText (start count : Nat) : Text := Nat.toDigits 10 start ++ ',' :: Nat.toDigits 10 count

/-- A numbered header as it is written. -/
def headerText (oldStart oldCount newStart newCount : Nat) : Text :=
  ['@', '@', ' ', '-'] ++ (sideText oldStart oldCount ++ ([' ', '+'] ++
    (sideText newStart newCount ++ [' ', '@', '@'])))

/-- The header of a hunk as it is written. -/
def writtenHeader (h : Hunk) : Text :=
  headerText (h.oldStart.getD 0).toNat h.oldCount.toNat (h.newStart.getD 0).toNat h.newCount.toNat

/-- The lines of a written hunk. -/
def written (h : Hunk) : List Text := h.writtenHeader :: h.rows.map DiffRow.text

/-- A removed line is written like the name of an old file, and the row after it is an added line
that is written like the name of a new one. -/
def HasFilePair (h : Hunk) : Prop :=
  ∃ removed added, [.line ⟨.remove, '-' :: '-' :: ' ' :: removed⟩,
    .line ⟨.add, '+' :: '+' :: ' ' :: added⟩] <:+: h.rows

end Hunk

/-- The lines of a written diff. -/
def writtenDiff (hunks : List Hunk) : List Text := hunks.flatMap Hunk.written

/-- The text of a written diff in a style of line endings, with an ending after its last line or
without it. -/
def writtenText (hunks : List Hunk) (ending : LineEnding) (isEnded : Bool) : Text :=
  Text.join ending.text (writtenDiff hunks) ++ if isEnded then ending.text else []

/-! ## Numbers of a header -/

namespace Text

/-- A digit of ASCII is worth its distance from zero. -/
theorem digitValue?_of_isDigit {c : Char} (h : c.isDigit = true) :
    digitValue? c = some (c.toNat - '0'.toNat) := by
  have hbounds : 48 ≤ c.toNat ∧ c.toNat ≤ 57 := by
    simpa [Char.isDigit, UInt32.le_iff_toNat_le] using h
  have hfirst : (decide (0x30 ≤ c.toNat) && decide (c.toNat ≤ 0x30 + 9)) = true := by
    rw [decide_eq_true hbounds.1, decide_eq_true hbounds.2]
    rfl
  -- The digits of ASCII are the first ones to be looked at.
  have hfind : (digitZeros.find? fun z => z ≤ c.toNat && c.toNat ≤ z + 9) = some 0x30 :=
    List.find?_cons_of_pos hfirst
  rw [digitValue?, hfind]
  rfl

/-- The digits of a number write it. -/
theorem digitsValue_toDigits (n : Nat) : digitsValue (Nat.toDigits 10 n) = n := by
  have hdigits : ∀ c ∈ Nat.toDigits 10 n, c.isDigit = true := fun c hc =>
    Nat.isDigit_of_mem_toDigits (by decide) (by decide) hc
  have hvalue : (Nat.toDigits 10 n).filterMap digitValue? =
      (Nat.toDigits 10 n).map fun c => c.toNat - '0'.toNat := by
    rw [← List.filterMap_eq_map]
    exact List.filterMap_congr fun c hc => digitValue?_of_isDigit (hdigits c hc)
  rw [digitsValue, hvalue, List.foldl_map]
  have hten := Nat.ofDigitChars_ten_toDigits (n := n)
  rw [Nat.ofDigitChars_eq_foldl] at hten
  simpa [Nat.mul_comm] using hten

/-- The digits of a number, with something else after them, are read as the number. -/
theorem number?_toDigits (n : Nat) {c : Char} (hc : isDigit c = false) (rest : Text) :
    number? (Nat.toDigits 10 n ++ c :: rest) = some (n, c :: rest) := by
  have hdigits : ∀ x ∈ Nat.toDigits 10 n, isDigit x = true := by
    intro x hx
    have hascii := Nat.isDigit_of_mem_toDigits (by decide) (by decide) hx
    rw [isDigit, digitValue?_of_isDigit hascii]
    rfl
  -- The number ends at the first character that is no digit.
  have htake : (Nat.toDigits 10 n ++ c :: rest).takeWhile isDigit = Nat.toDigits 10 n := by
    rw [List.takeWhile_append_of_pos hdigits, List.takeWhile_cons, hc]
    exact List.append_nil _
  have hdrop : (Nat.toDigits 10 n ++ c :: rest).dropWhile isDigit = c :: rest := by
    rw [List.dropWhile_append_of_pos hdigits, List.dropWhile_cons, hc]
    rfl
  rw [number?, htake, hdrop, digitsValue_toDigits, if_neg]
  rw [List.isEmpty_iff]
  exact Nat.toDigits_ne_nil

end Text

namespace Hunk

/-- A side of a header is read as its start and count. -/
theorem side?_sideText (start count : Nat) {c : Char} (hc : Text.isDigit c = false) (rest : Text) :
    side? (sideText start count ++ c :: rest) = some (start, count, c :: rest) := by
  have hcomma : Text.isDigit ',' = false := by decide
  have hparts : sideText start count ++ c :: rest =
      Nat.toDigits 10 start ++ ',' :: (Nat.toDigits 10 count ++ c :: rest) := by
    rw [sideText, List.append_assoc, List.cons_append]
  rw [side?, hparts]
  simp only [Text.number?_toDigits start hcomma, Text.number?_toDigits count hc]

/-- A side of a header is read after what stands before it. -/
theorem sideAfter?_sideText (word : Text) (start count : Nat) {c : Char}
    (hc : Text.isDigit c = false) (rest : Text) :
    sideAfter? word (word ++ (sideText start count ++ c :: rest)) =
      some (start, count, c :: rest) := by
  have hafter : Text.after word (word ++ (sideText start count ++ c :: rest)) =
      some (sideText start count ++ c :: rest) := Text.after_eq_some_iff.mpr rfl
  rw [sideAfter?, hafter]
  exact side?_sideText start count hc rest

/-- A written header is read as a hunk with its numbers and without lines. -/
theorem ofNumbered?_headerText (index a b c d : Nat) :
    ofNumbered? index (headerText a b c d) =
      some ⟨index, some a, b, some c, d, [], headerText a b c d, false, false⟩ := by
  have hspace : Text.isDigit ' ' = false := by decide
  have hold : sideAfter? ['@', '@', ' ', '-'] (headerText a b c d) =
      some (a, b, [' ', '+'] ++ (sideText c d ++ [' ', '@', '@'])) :=
    sideAfter?_sideText _ a b hspace _
  have hnew : sideAfter? [' ', '+'] ([' ', '+'] ++ (sideText c d ++ [' ', '@', '@'])) =
      some (c, d, [' ', '@', '@']) := sideAfter?_sideText _ c d hspace _
  have hclose : Text.after [' ', '@', '@'] [' ', '@', '@'] = some [] := rfl
  rw [ofNumbered?, hold]
  dsimp only
  rw [hnew]
  dsimp only
  rw [hclose]
  dsimp only
  -- Nothing follows the header, so that it is kept as a whole.
  rw [List.length_nil, Nat.sub_zero, List.take_length]

end Hunk

/-! ## Lines without line breaks -/

/-- The digits of a number are no line breaks. -/
theorem Text.isPlain_toDigits (n : Nat) : IsPlain (Nat.toDigits 10 n) := by
  have hdigit : ∀ c ∈ Nat.toDigits 10 n, c.isDigit = true := fun c hc =>
    Nat.isDigit_of_mem_toDigits (by decide) (by decide) hc
  exact ⟨fun hc => absurd (hdigit _ hc) (by decide), fun hc => absurd (hdigit _ hc) (by decide)⟩

namespace Hunk

/-- A written side of a header holds no line break. -/
theorem isPlain_sideText (start count : Nat) : (sideText start count).IsPlain := by
  have hcomma : Text.IsPlain [','] := by decide
  exact Text.isPlain_append.mpr ⟨Text.isPlain_toDigits start,
    Text.isPlain_append.mpr ⟨hcomma, Text.isPlain_toDigits count⟩⟩

/-- A written header holds no line break. -/
theorem isPlain_writtenHeader (h : Hunk) : h.writtenHeader.IsPlain := by
  unfold writtenHeader headerText
  simp only [Text.isPlain_append, isPlain_sideText, true_and]
  decide

/-- A row is a line of the hunk or says that one has no line feed. -/
theorem mem_rowsFrom {h : Hunk} {row : DiffRow} {ls : List HunkLine} (hrow : row ∈ h.rowsFrom ls) :
    row = .noNewline ∨ ∃ l ∈ ls, row = .line l := by
  induction ls with
  | nil => exact absurd hrow List.not_mem_nil
  | cons l later ih =>
    rw [rowsFrom, List.mem_append, List.mem_cons] at hrow
    rcases hrow with (rfl | hnote) | hlater
    · exact .inr ⟨l, List.mem_cons_self, rfl⟩
    · split at hnote
      · exact .inl (List.mem_singleton.mp hnote)
      · exact absurd hnote List.not_mem_nil
    · rcases ih hlater with rfl | ⟨x, hx, rfl⟩
      · exact .inl rfl
      · exact .inr ⟨x, List.mem_cons_of_mem l hx, rfl⟩

/-- The lines of a written hunk hold no line break if those of the hunk do not. -/
theorem isPlain_of_mem_written {h : Hunk} (hlines : ∀ l ∈ h.lines, l.text.IsPlain) {t : Text}
    (ht : t ∈ h.written) : t.IsPlain := by
  rcases List.mem_cons.mp ht with rfl | ht
  · exact h.isPlain_writtenHeader
  · obtain ⟨row, hrow, rfl⟩ := List.mem_map.mp ht
    rcases mem_rowsFrom hrow with rfl | ⟨⟨kind, text⟩, hl, rfl⟩
    · decide
    · have hmark : Text.IsPlain [kind.mark] := by cases kind <;> decide
      exact Text.isPlain_append.mpr ⟨hmark, hlines _ hl⟩

/-- No line of a written hunk is empty. -/
theorem ne_nil_of_mem_written {h : Hunk} {t : Text} (ht : t ∈ h.written) : t ≠ [] := by
  rcases List.mem_cons.mp ht with rfl | ht
  · exact List.cons_ne_nil _ _
  · obtain ⟨row, -, rfl⟩ := List.mem_map.mp ht
    cases row
    · exact List.cons_ne_nil _ _
    · decide

end Hunk

/-! ## Rows among the lines of a diff -/

/-- A text does not start with a word that has another first character. -/
theorem Text.startsWith_cons_of_ne {w c : Char} (h : c ≠ w) (ws t : Text) :
    startsWith (w :: ws) (c :: t) = false := by
  rw [startsWith, after, if_neg (Ne.symm h)]
  rfl

/-- The header of a hunk is read as one. -/
theorem DiffLine.ofLine_writtenHeader (h : Hunk) :
    ofLine h.writtenHeader = .hunk h.writtenHeader := by
  have hstart : Text.startsWith hunkWord h.writtenHeader = true := Text.startsWith_iff.mpr ⟨_, rfl⟩
  rw [ofLine, if_pos hstart]

/-- A row is read as no header. -/
theorem DiffRow.ofLine_text (r : DiffRow) : DiffLine.ofLine r.text = .body r.text := by
  -- Its first character starts neither the header of a hunk nor that of a pair of files.
  obtain ⟨c, t, hrow, hat, hd⟩ : ∃ c t, r.text = c :: t ∧ c ≠ '@' ∧ c ≠ 'd' := by
    cases r with
    | line l =>
      refine ⟨l.kind.mark, l.text, rfl, ?_⟩
      cases l.kind <;> decide
    | noNewline => exact ⟨'\\', _, rfl, by decide, by decide⟩
  rw [hrow, DiffLine.ofLine, DiffLine.hunkWord, DiffLine.pairWord, Text.startsWith_cons_of_ne hat,
    Text.startsWith_cons_of_ne hd]
  rfl

/-- Two rows are written like the names of two files only if the first is a removed line, the second
an added one, and both lines start accordingly. -/
theorem DiffRow.namesFiles_text_iff (r s : DiffRow) :
    DiffLine.namesFiles r.text s.text = true ↔
      ∃ removed added, r = .line ⟨.remove, '-' :: '-' :: ' ' :: removed⟩ ∧
        s = .line ⟨.add, '+' :: '+' :: ' ' :: added⟩ := by
  rw [DiffLine.namesFiles, Bool.and_eq_true, Text.startsWith_iff, Text.startsWith_iff]
  constructor
  · rintro ⟨⟨removed, hr⟩, ⟨added, hs⟩⟩
    refine ⟨removed, added, ?_, ?_⟩
    · obtain ⟨kind, text⟩ | _ := r
      · obtain ⟨hmark, htext⟩ := List.cons.inj hr.symm
        have hkind : kind = .remove := LineKind.mark_injective hmark
        have hline : text = _ := htext
        rw [hkind, hline]
        rfl
      · exact absurd (List.cons.inj hr.symm).1 (by decide)
    · obtain ⟨kind, text⟩ | _ := s
      · obtain ⟨hmark, htext⟩ := List.cons.inj hs.symm
        have hkind : kind = .add := LineKind.mark_injective hmark
        have hline : text = _ := htext
        rw [hkind, hline]
        rfl
      · exact absurd (List.cons.inj hs.symm).1 (by decide)
  · rintro ⟨removed, added, rfl, rfl⟩
    exact ⟨⟨removed, rfl⟩, ⟨added, rfl⟩⟩

/-- Two lines in a row that do not name two files. -/
abbrev Apart (line next : Text) : Prop := DiffLine.namesFiles line next = false

/-- In the rows of a hunk no two name two files, unless it has such a pair. -/
theorem Hunk.isChain_rows_iff (h : Hunk) :
    List.IsChain Apart (h.rows.map DiffRow.text) ↔ ¬ h.HasFilePair := by
  rw [List.isChain_map, List.isChain_iff_forall_rel_of_append_cons_cons]
  constructor
  · rintro hapart ⟨removed, added, front, back, hrows⟩
    rw [List.append_assoc] at hrows
    have hpair := (DiffRow.namesFiles_text_iff _ _).mpr ⟨removed, added, rfl, rfl⟩
    exact Bool.eq_false_iff.mp (hapart hrows.symm) hpair
  · intro hnone r s front back hrows
    rw [Apart, Bool.eq_false_iff]
    intro hnames
    obtain ⟨removed, added, rfl, rfl⟩ := (DiffRow.namesFiles_text_iff r s).mp hnames
    exact hnone ⟨removed, added, front, back, by rw [hrows, List.append_assoc]; rfl⟩

/-- No line names an old file before the header of a hunk. -/
theorem Hunk.apart_writtenHeader (line : Text) (h : Hunk) : Apart line h.writtenHeader := by
  have hnew : Text.startsWith DiffLine.newWord h.writtenHeader = false :=
    Text.startsWith_cons_of_ne (by decide) _ _
  rw [Apart, DiffLine.namesFiles, hnew, Bool.and_false]

/-- The header of a hunk names no old file. -/
theorem Hunk.writtenHeader_apart (h : Hunk) (line : Text) : Apart h.writtenHeader line := by
  have hold : Text.startsWith DiffLine.oldWord h.writtenHeader = false :=
    Text.startsWith_cons_of_ne (by decide) _ _
  rw [Apart, DiffLine.namesFiles, hold, Bool.false_and]

/-- In a written diff no two lines name two files, unless a hunk has such a pair. -/
theorem isChain_writtenDiff_iff (hunks : List Hunk) :
    List.IsChain Apart (writtenDiff hunks) ↔ ∀ h ∈ hunks, ¬ h.HasFilePair := by
  induction hunks with
  | nil => exact ⟨fun _ _ h => absurd h List.not_mem_nil, fun _ => .nil⟩
  | cons h hunks ih =>
    -- What follows the hunk, if anything does, is the header of the next one.
    have hheader : ∀ line ∈ (writtenDiff hunks).head?, ∀ last, Apart last line := by
      intro line hline last
      cases hunks with
      | nil => cases hline
      | cons g hunks =>
        cases hline
        exact g.apart_writtenHeader last
    rw [writtenDiff, List.flatMap_cons, ← writtenDiff, List.isChain_append, ih, Hunk.written,
      List.isChain_cons, h.isChain_rows_iff, List.forall_mem_cons]
    constructor
    · rintro ⟨⟨-, hrows⟩, hrest, -⟩
      exact ⟨hrows, hrest⟩
    · rintro ⟨hrows, hrest⟩
      exact ⟨⟨fun _ _ => h.writtenHeader_apart _, hrows⟩, hrest,
        fun last _ line hline => hheader line hline last⟩

end Emend
