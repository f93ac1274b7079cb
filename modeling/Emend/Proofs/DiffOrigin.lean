import Emend.Proofs.Characters
import Emend.Proofs.DiffSteps

/-!
# Where the lines of hunks come from

A line of a hunk that is read is the end of a line of the diff: all of it, or what follows the
character that marks its kind. A reader has no other lines in its hunks (`DiffReader.IsDrawn`), and
each step keeps it so (`DiffReader.IsDrawn.step`), whatever it is that stands next.
-/

namespace Emend

/-- The lines of a hunk are ends of lines of the source. -/
def Hunk.IsDrawn (h : Hunk) (source : List Text) : Prop :=
  ∀ l ∈ h.lines, ∃ line ∈ source, l.text <:+ line

/-- The lines of all hunks of a reader are ends of lines of the source. -/
structure DiffReader.IsDrawn (r : DiffReader) (source : List Text) : Prop where
  /-- The lines of a closed hunk are. -/
  complete : ∀ h ∈ r.complete, h.IsDrawn source
  /-- The lines of the open hunk are. -/
  current : ∀ h, r.current = some h → h.IsDrawn source

namespace DiffLine

/-- The body lines of a diff are among its lines. -/
theorem mem_of_body_mem_ofLines {ls : List Text} {line : Text} (h : body line ∈ ofLines ls) :
    line ∈ ls := by
  have hbody : ∀ l : Text, body line = ofLine l → line = l := by
    intro l heq
    unfold ofLine at heq
    split at heq
    · cases heq
    · split at heq
      · cases heq
      · exact DiffLine.body.inj heq
  fun_induction ofLines ls with
  | case1 => cases h
  | case2 l => exact List.mem_singleton.mpr (hbody l (List.mem_singleton.mp h))
  | case3 l next rest hnames ih =>
    have hrest : body line ∈ ofLines rest :=
      (List.mem_cons.mp h).resolve_left fun heq => by cases heq
    exact List.mem_cons_of_mem l (List.mem_cons_of_mem next (ih hrest))
  | case4 l next rest hnames ih =>
    rcases List.mem_cons.mp h with heq | h
    · exact hbody l heq ▸ List.mem_cons_self
    · exact List.mem_cons_of_mem l (ih h)

end DiffLine

namespace DiffReader

variable {r s : DiffReader} {source : List Text}

/-- Closing a hunk adds no line to it. -/
theorem IsDrawn.close (h : r.IsDrawn source) (hclose : r.close = .ok s) : s.IsDrawn source := by
  obtain ⟨-, rfl⟩ | ⟨g, t, warnings, hcurrent, hfinish, rfl⟩ := close_cases hclose
  · exact h
  · have ht : t.IsDrawn source := fun l hl =>
      h.current g hcurrent l ((Hunk.lines_prefix_of_finish hfinish).subset hl)
    refine ⟨fun x hx => ?_, fun x hx => by cases hx⟩
    rcases List.mem_append.mp hx with hx | hx
    · exact h.complete x hx
    · exact List.mem_singleton.mp hx ▸ ht

/-- A hunk is opened without lines. -/
theorem IsDrawn.openHunk (h : r.IsDrawn source) {line : Text} (hopen : r.openHunk line = .ok s) :
    s.IsDrawn source := by
  obtain ⟨g, hlines, rfl⟩ := openHunk_cases hopen
  refine ⟨h.complete, fun x hx l hl => ?_⟩
  obtain rfl : g = x := Option.some.inj hx
  rw [hlines] at hl
  cases hl

/-- A line that is read into the open hunk may be drawn from. -/
theorem IsDrawn.addLine (h : r.IsDrawn source) {g : Hunk} (hcurrent : r.current = some g)
    {line : Text} (hsource : line ∈ source) {rest : List DiffLine}
    (hline : r.addLine g line rest = .ok s) : s.IsDrawn source := by
  rcases addLine_cases hline with ⟨t, rfl, rfl⟩ | ⟨-, ⟨kind, text, trace, htext, rfl⟩ | hclose⟩
  · refine ⟨h.complete, fun x hx l hl => ?_⟩
    obtain rfl : g.markMissing = x := Option.some.inj hx
    rw [g.lines_markMissing] at hl
    exact h.current g hcurrent l hl
  · refine ⟨h.complete, fun x hx l hl => ?_⟩
    obtain rfl : g.push kind text = x := Option.some.inj hx
    rcases List.mem_append.mp hl with hl | hl
    · exact h.current g hcurrent l hl
    · obtain rfl := List.mem_singleton.mp hl
      exact ⟨line, hsource, htext⟩
  · exact h.close hclose

/-- A step draws on nothing but the line that stands next. -/
theorem IsDrawn.step (h : r.IsDrawn source) {next : DiffLine} {rest : List DiffLine}
    (hnext : ∀ line, next = .body line → line ∈ source) (hstep : r.step next rest = .ok s) :
    s.IsDrawn source := by
  rcases step_cases hstep with ⟨line, t, rfl, hclose, hopen⟩ | ⟨rfl, hclose⟩ |
    ⟨old, new, t, rfl, hclose, rfl⟩ | ⟨line, rfl, ⟨-, rfl⟩ | ⟨g, hcurrent, hline⟩⟩
  · exact (h.close hclose).openHunk hopen
  · exact h.close hclose
  · exact ⟨(h.close hclose).complete, (h.close hclose).current⟩
  · exact h
  · exact h.addLine hcurrent (hnext line rfl) hline

/-- A run draws on nothing but the lines that follow. -/
theorem IsDrawn.run (h : r.IsDrawn source) {ls : List DiffLine}
    (hls : ∀ line, .body line ∈ ls → line ∈ source) : (r.run ls).1.IsDrawn source := by
  induction ls generalizing r with
  | nil =>
    rw [DiffReader.run]
    split
    · next s hclose => exact h.close hclose
    · exact h
  | cons next rest ih =>
    rw [DiffReader.run]
    split
    · next s hstep =>
      have hs : s.IsDrawn source :=
        h.step (fun line heq => hls line (heq ▸ List.mem_cons_self)) hstep
      have hcounted : IsDrawn { s with count := s.count + next.height } source :=
        ⟨hs.complete, hs.current⟩
      exact ih hcounted fun line hline => hls line (List.mem_cons_of_mem next hline)
    · exact h

end DiffReader

namespace ParsedDiff

variable {edit : Text} {diff : ParsedDiff}

/-- The lines of the hunks that are read are ends of lines of the edit text. -/
theorem isDrawn_of_read (hread : (read edit).value = .ok diff) :
    ∀ h ∈ diff.hunks, h.IsDrawn edit.unifyEndings.bodyLines := by
  have hinitial : DiffReader.initial.IsDrawn edit.unifyEndings.bodyLines :=
    ⟨List.forall_mem_nil _, fun h hh => by cases hh⟩
  rw [hunks_of_read hread]
  exact (hinitial.run fun line hline => DiffLine.mem_of_body_mem_ofLines hline).complete

/-- The hunks that are read have the characters of the edit text. -/
theorem mem_of_read {c : Char} (hread : (read edit).value = .ok diff) {h : Hunk}
    (hh : h ∈ diff.hunks) {l : HunkLine} (hl : l ∈ h.lines) (hc : c ∈ l.text) :
    c ∈ edit.unifyEndings := by
  obtain ⟨line, hline, htext⟩ := isDrawn_of_read hread h hh l hl
  exact Text.mem_of_mem_bodyLines hline (htext.subset hc)

end ParsedDiff

end Emend
