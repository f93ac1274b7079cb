import Emend.Apply.Edit
import Emend.Proofs.MarkerLines
import Emend.Proofs.OpenHunk
import Emend.Proofs.WrittenLines

/-!
# Edit texts that are read alike

Two edit texts are read alike (`Edit.ReadAlike`) if the same dialect is told from both and the same
comes of reading them in it. Then the same comes of applying them, whatever the document and the
settings are (`Edit.ReadAlike.applyDetected_eq`).

Lines around the units of an edit text are passed over in either dialect if they start like no
marker and no header (`DiffLine.IsIdle`). Such a line may stand before an edit text
(`Edit.readAlike_cons`), where it matters for nothing but the line numbers in the faults of blocks.
The closing line of a fence may stand after an edit text that leaves nothing open
(`Edit.IsComplete`, `Edit.readAlike_append`): it would be a line of a block that is not ended, and
context of a hunk that has fewer lines than its header says.

A reader of a diff keeps count of the lines and a record of its work, which nothing that it reads
depends on (`DiffReader.known_run`). So two runs are compared without them (`DiffReader.known`).
-/

namespace Emend

/-! ## Idle lines -/

/-- A line is empty, or it starts with a space or like a fence. -/
def DiffLine.IsIdle (line : Text) : Prop :=
  ∀ c ∈ line.head?, c = '\x60' ∨ Text.isSpace c = true

namespace Marker

/-- A run starts with its character. -/
theorem head?_of_isRun {c : Char} {word line : Text} (h : isRun c word line = true) :
    line.head? = some c := by
  cases line with
  | nil => cases h
  | cons d line =>
    by_cases hd : d = c
    · rw [hd, List.head?_cons]
    · have hnone : (d :: line).takeWhile (· == c) = [] :=
        List.takeWhile_cons_of_neg (mt beq_iff_eq.mp hd)
      rw [isRun, hnone] at h
      cases h

/-- A start line starts with its character, and so does any other marker. -/
theorem head?_of_ofLine {line : Text} (h : ofLine line ≠ .other) :
    ∃ c ∈ ['<', '=', '>'], line.head? = some c := by
  unfold ofLine at h
  split at h
  case isTrue hrun => exact ⟨'<', by decide, head?_of_isRun hrun⟩
  split at h
  case isTrue hrun => exact ⟨'=', by decide, head?_of_isRun hrun⟩
  split at h
  case isTrue hrun => exact ⟨'>', by decide, head?_of_isRun hrun⟩
  exact absurd rfl h

end Marker

namespace DiffLine

variable {line : Text} {ls : List Text}

/-- An idle line does not start with a character that is neither a space nor one of a fence. -/
theorem IsIdle.head?_ne (h : IsIdle line) {c : Char}
    (hc : c ≠ '\x60' ∧ Text.isSpace c = false) : line.head? ≠ some c := by
  intro hhead
  rcases h c hhead with rfl | hspace
  · exact hc.1 rfl
  · rw [hc.2] at hspace
    cases hspace

/-- It starts with no word that starts with such a character. -/
theorem IsIdle.startsWith_eq_false (h : IsIdle line) {c : Char} (word : Text)
    (hc : c ≠ '\x60' ∧ Text.isSpace c = false) : Text.startsWith (c :: word) line = false := by
  rw [Bool.eq_false_iff]
  intro hstarts
  obtain ⟨rest, rfl⟩ := Text.startsWith_iff.mp hstarts
  exact h.head?_ne hc rfl

/-- An idle line is no marker. -/
theorem IsIdle.ofLine_marker (h : IsIdle line) : Marker.ofLine line = .other := by
  by_contra hmarker
  obtain ⟨c, hc, hhead⟩ := Marker.head?_of_ofLine hmarker
  simp only [List.mem_cons, List.not_mem_nil, or_false] at hc
  rcases hc with rfl | rfl | rfl <;> exact h.head?_ne (by decide) hhead

/-- An idle line is no header, and it is met as a body line. -/
theorem IsIdle.ofLines_append_cons (h : IsIdle line) (front back : List Text) :
    ofLines (front ++ line :: back) = ofLines front ++ .body line :: ofLines back := by
  have hbody : ofLine line = .body line :=
    ofLine_of_not (h.startsWith_eq_false _ (by decide)) (h.startsWith_eq_false _ (by decide))
  rw [DiffLine.ofLines_append_cons (h.startsWith_eq_false _ (by decide))
    (h.startsWith_eq_false _ (by decide)), hbody]

/-- So are idle lines at the end. -/
theorem ofLines_append_idle (hls : ∀ l ∈ ls, IsIdle l) (front : List Text) :
    ofLines (front ++ ls) = ofLines front ++ ls.map .body := by
  induction ls generalizing front with
  | nil => rw [List.append_nil, List.map_nil, List.append_nil]
  | cons l ls ih =>
    obtain ⟨hl, hrest⟩ := List.forall_mem_cons.mp hls
    rw [hl.ofLines_append_cons, ← List.nil_append ls, ih hrest []]
    rfl

/-- No idle line says a change. -/
theorem changesFollow_idle (hls : ∀ l ∈ ls, IsIdle l) : changesFollow (ls.map .body) = false := by
  induction ls with
  | nil => rfl
  | cons l ls ih =>
    obtain ⟨hl, hrest⟩ := List.forall_mem_cons.mp hls
    rw [List.map_cons, changesFollow, ih hrest]
    · rintro text rfl
      exact hl.head?_ne (by decide) rfl
    · rintro text rfl
      exact hl.head?_ne (by decide) rfl

/-- So no more changes follow with idle lines at the end. -/
theorem changesFollow_append_idle (hls : ∀ l ∈ ls, IsIdle l) (front : List DiffLine) :
    changesFollow (front ++ ls.map .body) = changesFollow front := by
  fun_induction changesFollow front with
  | case1 | case2 => rfl
  | case3 line rest hadd hremove ih => rw [List.cons_append, changesFollow, ih] <;> assumption
  | case4 front _ _ hbody =>
    cases front with
    | nil => exact changesFollow_idle hls
    | cons next rest =>
      cases next with
      | body line => exact absurd rfl (hbody line rest)
      | hunk | pair | files => rfl

end DiffLine

/-! ## Readers without their count and record -/

namespace DiffReader

variable {r s : DiffReader} {ls rest : List DiffLine}

/-- What a reader knows of the diff. -/
def known (r : DiffReader) : DiffReader := { r with count := 0, trace := [] }

/-- A hunk is closed by what a reader knows. -/
theorem close_known (r : DiffReader) : r.known.close = r.close.map known := by
  obtain ⟨complete, current, warnings, oldPath, newPath, targets, count, trace⟩ := r
  unfold close known
  cases current with
  | none => rfl
  | some h =>
    dsimp only
    cases h.finish <;> rfl

/-- So is one opened. -/
theorem openHunk_known (r : DiffReader) (line : Text) :
    r.known.openHunk line = (r.openHunk line).map known := by
  unfold openHunk
  dsimp only [known]
  split <;> rfl

/-- So is a line added to one. -/
theorem addLine_known (r : DiffReader) (h : Hunk) (line : Text) (rest : List DiffLine) :
    (r.known.addLine h line rest).map known = (r.addLine h line rest).map known := by
  unfold addLine
  split
  case h_6 =>
    split
    · rfl
    · rw [close_known]
      cases r.close <;> rfl
  all_goals rfl

/-- A step depends on what a reader knows. -/
theorem step_known (r : DiffReader) (next : DiffLine) (rest : List DiffLine) :
    (r.known.step next rest).map known = (r.step next rest).map known := by
  unfold step
  cases next with
  | hunk line =>
    dsimp only
    rw [close_known]
    cases r.close with
    | error e => rfl
    | ok t =>
      show (t.known.openHunk line).map known = (t.openHunk line).map known
      rw [openHunk_known]
      cases t.openHunk line <;> rfl
  | pair =>
    dsimp only
    rw [close_known]
    cases r.close <;> rfl
  | files old new =>
    dsimp only
    rw [close_known]
    cases r.close <;> rfl
  | body line =>
    dsimp only
    obtain ⟨complete, current, warnings, oldPath, newPath, targets, count, trace⟩ := r
    cases current with
    | none => rfl
    | some h => exact addLine_known _ h line rest

/-- A run depends on what a reader knows. -/
theorem run_known (r : DiffReader) (ls : List DiffLine) :
    (r.known.run ls).map known id = (r.run ls).map known id := by
  induction ls generalizing r with
  | nil =>
    rw [run, run, close_known]
    cases r.close <;> rfl
  | cons next rest ih =>
    have hstep := step_known r next rest
    rw [run, run]
    cases hknown : r.known.step next rest with
    | error e =>
      rw [hknown] at hstep
      cases hr : r.step next rest with
      | error e' =>
        rw [hr] at hstep
        obtain rfl : e = e' := Except.error.inj hstep
        rfl
      | ok t =>
        rw [hr] at hstep
        cases hstep
    | ok u =>
      rw [hknown] at hstep
      cases hr : r.step next rest with
      | error e' =>
        rw [hr] at hstep
        cases hstep
      | ok t =>
        rw [hr] at hstep
        have hknown : known { u with count := u.count + next.height } =
            known { t with count := t.count + next.height } := Except.ok.inj hstep
        dsimp only
        rw [← ih, hknown, ih]

/-- Readers that know the same end with the same. -/
theorem run_congr (h : r.known = s.known) (ls : List DiffLine) :
    (r.run ls).map known id = (s.run ls).map known id := by
  rw [← run_known, h, run_known]

/-- After a step without a fault a reader goes on with the rest. -/
theorem run_cons {next : DiffLine} (hstep : r.step next rest = .ok s) :
    r.run (next :: rest) = run { s with count := s.count + next.height } rest := by
  rw [run, hstep]

/-- A body line outside a hunk is passed over. -/
theorem run_body (hcurrent : r.current = none) (line : Text) (ls : List DiffLine) :
    (r.run (.body line :: ls)).map known id = (r.run ls).map known id := by
  have hstep : r.step (.body line) ls = .ok r := by
    rw [step, hcurrent]
  rw [run_cons hstep]
  refine run_congr ?_ ls
  rfl

/-- So are body lines at the end. -/
theorem run_bodies (hcurrent : r.current = none) (ls : List Text) :
    (r.run (ls.map .body)).map known id = (r.run []).map known id := by
  induction ls with
  | nil => rfl
  | cons l ls ih => rw [List.map_cons, run_body hcurrent, ih]

/-- A step looks ahead for changes only. -/
theorem step_congr {rest' : List DiffLine}
    (h : DiffLine.changesFollow rest = DiffLine.changesFollow rest') (next : DiffLine) :
    r.step next rest = r.step next rest' := by
  cases next with
  | body line =>
    unfold step addLine Hunk.wants
    simp only [h]
  | hunk | pair | files => rfl

end DiffReader

/-! ## Idle lines after a diff -/

/-- A hunk has as many lines on each side as its header says. -/
def Hunk.MeetsCounts (h : Hunk) : Prop :=
  h.oldCount = h.oldLines.length ∧ h.newCount = h.newLines.length

/-- A numbered hunk keeps its counts when it is closed. -/
theorem Hunk.counts_of_numbered {g h : Hunk} {warnings : List Warning}
    (hnumbered : g.isNumbered = true) (hfinish : g.finish = .ok (h, warnings)) :
    h.oldCount = g.oldCount ∧ h.newCount = g.newCount := by
  have htrimmed : g.trimmed.isNumbered = true := hnumbered
  unfold finish at hfinish
  dsimp only at hfinish
  rw [if_pos htrimmed] at hfinish
  split at hfinish
  · cases hfinish
  · cases hfinish
    exact ⟨rfl, rfl⟩

/-- A hunk that meets its counts when it is closed wants no line without a mark, unless a change
follows. -/
theorem Hunk.wants_eq_false {g h : Hunk} {warnings : List Warning} {rest : List DiffLine}
    (hfinish : g.finish = .ok (h, warnings)) (hmeets : h.MeetsCounts)
    (hrest : DiffLine.changesFollow rest = false) : g.wants rest = false := by
  unfold wants
  split
  · next hnumbered =>
    obtain ⟨hold, hnew⟩ := counts_of_numbered hnumbered hfinish
    obtain ⟨hold', hnew'⟩ := hmeets
    -- The hunk has all lines that it keeps.
    have hlines := (lines_prefix_of_finish hfinish).sublist
    have holdLines : h.oldLines.length ≤ g.oldLines.length :=
      ((hlines.filter _).map _).length_le
    have hnewLines : h.newLines.length ≤ g.newLines.length :=
      ((hlines.filter _).map _).length_le
    rw [Bool.or_eq_false_iff, decide_eq_false_iff_not, decide_eq_false_iff_not]
    omega
  · exact hrest

namespace DiffReader

variable {r s : DiffReader} {ls : List DiffLine}

/-- A line that starts like a fence closes a hunk that meets its counts, and it is passed over
outside a hunk. -/
theorem step_fence {rest : List DiffLine} (hclose : r.close = .ok s)
    (hmeets : ∀ h ∈ s.complete.getLast?, h.MeetsCounts)
    (hrest : DiffLine.changesFollow rest = false) (text : Text) :
    r.step (.body ('\x60' :: text)) rest = .ok s := by
  obtain ⟨hcurrent, rfl⟩ | ⟨g, h, warnings, hcurrent, hfinish, rfl⟩ := close_cases hclose
  · rw [step, hcurrent]
  · have hwants := Hunk.wants_eq_false hfinish (hmeets h List.getLast?_concat) hrest
    rw [step, hcurrent]
    show (if g.wants rest then _ else r.close) = _
    rw [hwants, if_neg Bool.false_ne_true, hclose]

/-- A reader that ends without a fault, with a last hunk that meets its counts, ends with the same
if the closing line of a fence and idle lines come after it. -/
theorem run_append_fence {text : Text} {tail : List Text} (hrun : r.run ls = (s, none))
    (hmeets : ∀ h ∈ s.complete.getLast?, h.MeetsCounts) (htail : ∀ l ∈ tail, DiffLine.IsIdle l) :
    (r.run (ls ++ (('\x60' :: text) :: tail).map .body)).map known id =
      (r.run ls).map known id := by
  induction ls generalizing r with
  | nil =>
    have hclose := close_of_run_nil hrun
    have hcurrent := current_of_close hclose
    have hstep := step_fence hclose hmeets (DiffLine.changesFollow_idle htail) text
    have hend : r.run [] = s.run [] := by
      rw [run, run, hclose, close, hcurrent]
    rw [hend, List.nil_append, List.map_cons, run_cons hstep]
    refine (run_bodies ?_ tail).trans (run_congr ?_ [])
    · exact hcurrent
    · rfl
  | cons next rest ih =>
    have hidle : ∀ l ∈ ('\x60' :: text) :: tail, DiffLine.IsIdle l :=
      List.forall_mem_cons.mpr ⟨fun c hc => .inl (Option.some.inj hc).symm, htail⟩
    obtain ⟨t, hstep, hrest⟩ := exists_step_of_run hrun
    have hstep' := hstep
    rw [← step_congr (DiffLine.changesFollow_append_idle hidle rest)] at hstep'
    rw [List.cons_append, run_cons hstep', run_cons hstep]
    exact ih hrest

end DiffReader

/-! ## Rows around blocks -/

/-- A text without the characters of markers has no marker row. -/
theorem Marker.ofRow_of_notMem {t row : Text} (ht : ∀ c ∈ ['<', '=', '>'], c ∉ t)
    (hrow : row ∈ t.rows) : ofRow row = .other := by
  by_contra hmarker
  obtain ⟨c, hc, hhead⟩ := head?_of_ofLine hmarker
  have hbody : row.rowBody ⊆ row := by
    unfold Text.rowBody
    split
    · exact List.dropLast_subset row
    · exact List.Subset.refl row
  refine ht c hc ?_
  rw [← Text.flatten_rows t]
  exact List.mem_flatten_of_mem hrow (hbody (List.mem_of_mem_head? hhead))

namespace EditBlock

variable {lead rows trail : List Text} {sections : List Rows}

/-- Rows that start no block may stand before blocks. -/
theorem Consist.append_left (h : Consist rows sections)
    (hlead : ∀ row ∈ lead, Marker.ofRow row ≠ .start) : Consist (lead ++ rows) sections := by
  cases h with
  | rest hrows => exact .rest (List.forall_mem_append.mpr ⟨hlead, hrows⟩)
  | block hfront hstart hb hseparator hfinish hrest =>
    rw [← List.append_assoc]
    exact .block (List.forall_mem_append.mpr ⟨hlead, hfront⟩) hstart hb hseparator hfinish hrest

/-- They may stand after blocks. -/
theorem Consist.append_right (h : Consist rows sections)
    (htrail : ∀ row ∈ trail, Marker.ofRow row ≠ .start) : Consist (rows ++ trail) sections := by
  induction h with
  | rest hrows => exact .rest (List.forall_mem_append.mpr ⟨hrows, htrail⟩)
  | block hfront hstart hb hseparator hfinish _ ih =>
    simp only [List.append_assoc, List.cons_append]
    exact .block hfront hstart hb hseparator hfinish ih

/-- A text is read as another one if their rows consist of the same blocks. -/
theorem read_of_rows {s t : Text} {blocks : List EditBlock}
    (hread : (read t).value = .ok blocks)
    (hrows : ∀ sections, Consist t.unifyEndings.rows sections →
      Consist s.unifyEndings.rows sections) : (read s).value = (read t).value := by
  obtain ⟨sections, hne, hconsist, rfl⟩ := exists_consist_of_read hread
  rw [hread, read_of_consist hne (hrows sections hconsist)]

end EditBlock

/-! ## Edit texts -/

/-- The same dialect is told from two texts if they show the same lines that are not idle. -/
theorem Dialect.detect_of_any {s t : Text}
    (h : ∀ p : Text → Bool, (∀ line, DiffLine.IsIdle line → p line = false) →
      s.unifyEndings.lines.any p = t.unifyEndings.lines.any p) : detect s = detect t := by
  have hmarker (kind : Marker) (hkind : kind ≠ .other) :
      s.unifyEndings.lines.any (Marker.ofLine · == kind) =
        t.unifyEndings.lines.any (Marker.ofLine · == kind) := by
    refine h _ fun line hidle => ?_
    rw [hidle.ofLine_marker, beq_eq_false_iff_ne]
    exact hkind.symm
  have hheader : looksLikeHunks s = looksLikeHunks t := by
    refine h _ fun line hidle => ?_
    rw [List.any_eq_false]
    simp only [headerWords, List.forall_mem_cons, Bool.not_eq_true]
    exact ⟨hidle.startsWith_eq_false _ (by decide), hidle.startsWith_eq_false _ (by decide),
      hidle.startsWith_eq_false _ (by decide), hidle.startsWith_eq_false _ (by decide),
      List.forall_mem_nil _⟩
  rw [detect, detect, looksLikeBlocks, looksLikeBlocks, hmarker .start (by decide),
    hmarker .finish (by decide), hheader]

/-- Diffs are read alike if their readers end with the same. -/
theorem ParsedDiff.read_congr {s t : Text}
    (h : (DiffReader.initial.run (DiffLine.ofEdit s)).map DiffReader.known id =
      (DiffReader.initial.run (DiffLine.ofEdit t)).map DiffReader.known id) :
    (read s).value = (read t).value := by
  have hvalue (edit : Text) : (read edit).value =
      match (DiffReader.initial.run (DiffLine.ofEdit edit)).map DiffReader.known id with
      | (_, some e) => .error e
      | (r, none) => .ok r.parsed := by
    unfold read
    obtain ⟨r, fault⟩ := DiffReader.initial.run (DiffLine.ofEdit edit)
    cases fault <;> rfl
  rw [hvalue, hvalue, h]

namespace Edit

/-- Two edit texts are read alike. -/
structure ReadAlike (s t : Text) : Prop where
  /-- The same dialect is told from both, or none. -/
  dialect : Dialect.detect s = Dialect.detect t
  /-- In the dialect of blocks the same is read. -/
  blocks : Dialect.detect t = .ok .blocks → (EditBlock.read s).value = (EditBlock.read t).value
  /-- In the dialect of hunks the same is read. -/
  hunks : Dialect.detect t = .ok .hunks → (ParsedDiff.read s).value = (ParsedDiff.read t).value

namespace ReadAlike

variable {r s t : Text}

/-- A text is read like itself. -/
theorem refl (t : Text) : ReadAlike t t := ⟨rfl, fun _ => rfl, fun _ => rfl⟩

/-- Texts that are read like the same one are read alike. -/
theorem trans (h : ReadAlike r s) (h' : ReadAlike s t) : ReadAlike r t where
  dialect := h.dialect.trans h'.dialect
  blocks hdetect := (h.blocks (h'.dialect.trans hdetect)).trans (h'.blocks hdetect)
  hunks hdetect := (h.hunks (h'.dialect.trans hdetect)).trans (h'.hunks hdetect)

end ReadAlike

/-- An edit text is applied in the dialect that it shows, without looking for a wrapping. -/
def applyDetected (content edit : Text) (settings : Value) : Traced (Except EditError Outcome) :=
  match Dialect.detect edit with
  | .error e => pure (.error (.dialect e))
  | .ok dialect => do
    Traced.say .debug s!"Detected {dialect.name} edit text"
    applyWith dialect content edit settings

/-- A text that is read like another one is applied as that one is in its dialect. -/
theorem ReadAlike.applyWith_eq {s t : Text} (h : ReadAlike s t) {dialect : Dialect}
    (hdetect : Dialect.detect t = .ok dialect) (content : Text) (settings : Value) :
    (applyWith dialect content s settings).value =
      (applyWith dialect content t settings).value := by
  have happly (options : Except OptionError Options) :
      (applyIn dialect content s options).value = (applyIn dialect content t options).value := by
    cases dialect with
    | blocks =>
      rw [applyIn, applyIn, applyBlocks, applyBlocks, Traced.value_bind, Traced.value_bind,
        h.blocks hdetect]
    | hunks =>
      rw [applyIn, applyIn, applyHunks, applyHunks, Traced.value_bind, Traced.value_bind,
        h.hunks hdetect]
  unfold applyWith
  cases Settings.ofValue settings with
  | error e => rfl
  | ok given =>
    dsimp only
    cases given.options with
    | error e => rfl
    | ok options => exact happly (.ok options)

/-- The same comes of applying edit texts that are read alike. -/
theorem ReadAlike.applyDetected_eq {s t : Text} (h : ReadAlike s t) (content : Text)
    (settings : Value) :
    (applyDetected content s settings).value = (applyDetected content t settings).value := by
  unfold applyDetected
  rw [h.dialect]
  cases hdetect : Dialect.detect t with
  | error e => rfl
  | ok dialect => exact h.applyWith_eq hdetect content settings

/-- An edit text is read to its end and leaves nothing open there: in the dialect of blocks each
block is ended, and in that of hunks the last one has as many lines as its header says. -/
structure IsComplete (t : Text) : Prop where
  /-- If it shows the dialect of blocks, blocks are read from it. -/
  blocks : Dialect.detect t = .ok .blocks →
    ∃ blocks, (EditBlock.read t).value = .ok blocks
  /-- If it shows the dialect of hunks, a diff is read from it whose last hunk meets its counts. -/
  hunks : Dialect.detect t = .ok .hunks →
    ∃ diff, (ParsedDiff.read t).value = .ok diff ∧ ∀ h ∈ diff.hunks.getLast?, h.MeetsCounts

/-- A text that is read like one that leaves nothing open leaves nothing open either. -/
theorem IsComplete.of_readAlike {s t : Text} (ht : IsComplete t) (h : ReadAlike s t) :
    IsComplete s where
  blocks hdetect := by
    rw [h.dialect] at hdetect
    rw [h.blocks hdetect]
    exact ht.blocks hdetect
  hunks hdetect := by
    rw [h.dialect] at hdetect
    rw [h.hunks hdetect]
    exact ht.hunks hdetect

/-- An idle line without the characters of markers may stand before an edit text that leaves nothing
open. -/
theorem readAlike_cons {line t : Text} (hidle : DiffLine.IsIdle line) (hplain : line.IsPlain)
    (hmarker : ∀ c ∈ ['<', '=', '>'], c ∉ line) (hne : t ≠ []) (ht : IsComplete t) :
    ReadAlike (line ++ '\n' :: t) t := by
  have hends : Text.endsLine (line ++ ['\n']) = true := Text.endsLine_concat line '\n'
  have hbody : Text.bodyLines (line ++ ['\n']) = [line] := Text.bodyLines_concat hplain.1
  have hunified : Text.unifyEndings (line ++ '\n' :: t) = line ++ ['\n'] ++ t.unifyEndings := by
    rw [Text.unifyEndings_append hplain.2, Text.unifyEndings_cons (by decide), List.append_assoc]
    rfl
  refine ⟨Dialect.detect_of_any fun p hp => ?_, fun hdetect => ?_, fun _ => ?_⟩
  · rw [hunified, Text.lines_append_of_endsLine hends, hbody, List.any_append, List.any_cons,
      hp line hidle]
    rfl
  · obtain ⟨blocks, hread⟩ := ht.blocks hdetect
    have hfree : ∀ c ∈ ['<', '=', '>'], c ∉ line ++ ['\n'] := by
      intro c hc hmem
      rcases List.mem_append.mp hmem with hline | hfeed
      · exact hmarker c hc hline
      · rw [List.mem_singleton.mp hfeed] at hc
        exact absurd hc (by decide)
    refine EditBlock.read_of_rows hread fun sections hconsist => ?_
    rw [hunified, (Text.IsTerminated.of_endsLine hends).rows_append]
    exact hconsist.append_left fun row hrow => by simp [Marker.ofRow_of_notMem hfree hrow]
  · have hne' : t.unifyEndings ≠ [] := mt Text.unifyEndings_eq_nil_iff.mp hne
    have hlines : DiffLine.ofEdit (line ++ '\n' :: t) = .body line :: DiffLine.ofEdit t := by
      rw [DiffLine.ofEdit, hunified, Text.bodyLines_append_of_endsLine hends, hbody,
        Text.wholeLines_of_ne_nil hne']
      exact hidle.ofLines_append_cons [] _
    refine ParsedDiff.read_congr ?_
    rw [hlines]
    exact DiffReader.run_body rfl line _

/-- The first body line of a text that starts with a fence starts with its character. -/
theorem exists_bodyLines_fence (tail : Text) :
    ∃ text more, Text.bodyLines (Wrapping.fence ++ tail) = ('\x60' :: text) :: more := by
  by_cases hfeed : '\n' ∈ tail
  · obtain ⟨front, rest, rfl, hfront⟩ := List.eq_append_cons_of_mem hfeed
    have hline : '\n' ∉ Wrapping.fence ++ front :=
      List.mem_append.not.mpr (not_or.mpr ⟨by decide, hfront⟩)
    have hshape : Wrapping.fence ++ (front ++ '\n' :: rest) =
        Wrapping.fence ++ front ++ ['\n'] ++ rest := by
      simp only [List.append_assoc, List.singleton_append]
    rw [hshape, Text.bodyLines_append_of_endsLine (Text.endsLine_concat _ _),
      Text.bodyLines_concat hline]
    exact ⟨_, _, rfl⟩
  · have hline : '\n' ∉ Wrapping.fence ++ tail :=
      List.mem_append.not.mpr (not_or.mpr ⟨by decide, hfeed⟩)
    have hbody := Text.bodyLines_ended_append (List.forall_mem_nil _) hline (List.cons_ne_nil _ _)
    exact ⟨_, [], hbody⟩

/-- The lines from the closing line of a fence on are idle and no markers. -/
theorem isIdle_closing {tail : Text} (htail : tail.isBlank = true) :
    (∀ l ∈ Text.lines (Wrapping.fence ++ tail), DiffLine.IsIdle l) ∧
      ∀ c ∈ ['<', '=', '>'], c ∉ Wrapping.fence ++ tail := by
  have hchar : ∀ c ∈ Wrapping.fence ++ tail, c = '\x60' ∨ Text.isSpace c = true := by
    intro c hc
    rcases List.mem_append.mp hc with hfence | hspace
    · exact .inl (List.eq_of_mem_replicate (n := 3) hfence)
    · exact .inr (List.all_eq_true.mp htail c hspace)
  refine ⟨fun l hl c hc => hchar c (Text.mem_of_mem_lines hl (List.mem_of_mem_head? hc)),
    fun c hc hmem => ?_⟩
  simp only [List.mem_cons, List.not_mem_nil, or_false] at hc
  rcases hc with rfl | rfl | rfl <;> exact absurd (hchar _ hmem) (by decide)

/-- The closing line of a fence, with nothing but spaces after it, may stand after an edit text that
leaves nothing open. -/
theorem readAlike_append {t tail : Text} (hends : t.endsLine = true)
    (htail : tail.isBlank = true) (hreturn : '\r' ∉ tail) (ht : IsComplete t) :
    ReadAlike (t ++ (Wrapping.fence ++ tail)) t := by
  obtain ⟨hidle, hfree⟩ := isIdle_closing htail
  have hterminated : t.IsTerminated := .of_endsLine hends
  have hends' : t.unifyEndings.endsLine = true := by
    refine hterminated.unifyEndings.resolve_left fun hnil => ?_
    rw [Text.unifyEndings_eq_nil_iff.mp hnil] at hends
    cases hends
  have hplain : '\r' ∉ Wrapping.fence ++ tail :=
    List.mem_append.not.mpr (not_or.mpr ⟨by decide, hreturn⟩)
  have hunified : Text.unifyEndings (t ++ (Wrapping.fence ++ tail)) =
      t.unifyEndings ++ (Wrapping.fence ++ tail) := by
    rw [hterminated.unifyEndings_append, Text.unifyEndings_of_notMem hplain]
  refine ⟨Dialect.detect_of_any fun p hp => ?_, fun hdetect => ?_, fun hdetect => ?_⟩
  · have hnone : (Text.lines (Wrapping.fence ++ tail)).any p = false :=
      List.any_eq_false.mpr fun l hl => Bool.eq_false_iff.mp (hp l (hidle l hl))
    have hlast : (Text.lines []).any p = false :=
      (Bool.or_false _).trans (hp [] fun c hc => by cases hc)
    have hlines := Text.lines_append_of_endsLine hends' []
    rw [List.append_nil] at hlines
    rw [hunified, Text.lines_append_of_endsLine hends', hlines, List.any_append, List.any_append,
      hnone, hlast]
  · obtain ⟨blocks, hread⟩ := ht.blocks hdetect
    refine EditBlock.read_of_rows hread fun sections hconsist => ?_
    rw [hunified, (Text.IsTerminated.of_endsLine hends').rows_append]
    exact hconsist.append_right fun row hrow => by simp [Marker.ofRow_of_notMem hfree hrow]
  · obtain ⟨diff, hread, hmeets⟩ := ht.hunks hdetect
    obtain ⟨s, hrun, rfl⟩ := ParsedDiff.exists_run_of_read hread
    obtain ⟨text, more, hbody⟩ := exists_bodyLines_fence tail
    have hmore : ∀ l ∈ ('\x60' :: text) :: more, DiffLine.IsIdle l := fun l hl =>
      hidle l (Text.mem_lines_of_mem_bodyLines (hbody ▸ hl))
    have hwhole : Text.wholeLines (Wrapping.fence ++ tail) = ('\x60' :: text) :: more := hbody
    have hlines : DiffLine.ofEdit (t ++ (Wrapping.fence ++ tail)) =
        DiffLine.ofEdit t ++ (('\x60' :: text) :: more).map .body := by
      rw [DiffLine.ofEdit, hunified, Text.bodyLines_append_of_endsLine hends', hwhole,
        DiffLine.ofLines_append_idle hmore, DiffLine.ofEdit]
    refine ParsedDiff.read_congr ?_
    rw [hlines]
    exact DiffReader.run_append_fence hrun hmeets (List.forall_mem_cons.mp hmore).2

end Edit

end Emend
