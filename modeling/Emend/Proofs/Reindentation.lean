import Emend.Proofs.AddedLines
import Emend.Proofs.Occurrences
import Emend.Proofs.WrittenLines

/-!
# Moving lines back

Lines that are moved from the indentation of one line to that of another change in nothing but their
indentation, and blank ones do not change at all (`Text.forall₂_reindent`). They can be moved back
where every visible line starts with the indentation that was taken off, since it then starts with
the one that was put there instead. A line that does not start with the first is left where it is
and comes back unless it starts with the second (`Text.moveIndent_moveIndent_iff`), so that
`Text.reindent_reindent_iff` says exactly when the two moves undo each other.
-/

namespace Emend.Text

variable {inner outer line : Text}

/-- A line that does not start with an indentation keeps it. -/
theorem moveIndent_of_not_startsWith (h : ¬inner <+: line) (outer : Text) :
    moveIndent inner outer line = line :=
  moveIndent_eq_self_iff.mpr (.inr (.inl (Bool.eq_false_iff.mpr (mt startsWith_iff.mp h))))

/-- A line that is moved from one indentation to another comes back from there, unless it is
visible, starts with the other one and does not start with the first. -/
theorem moveIndent_moveIndent_iff (hinner : ∀ c ∈ inner, isIndent c = true)
    (houter : ∀ c ∈ outer, isIndent c = true) :
    moveIndent outer inner (moveIndent inner outer line) = line ↔
      (line.isBlank = false → outer <+: line → inner <+: line) := by
  cases hblank : line.isBlank with
  | true =>
    rw [moveIndent_of_isBlank hblank, moveIndent_of_isBlank hblank]
    exact iff_of_true rfl nofun
  | false =>
    by_cases hprefix : inner <+: line
    · obtain ⟨rest, rfl⟩ := hprefix
      have hback : (outer ++ rest).isBlank = false := by
        rw [isBlank_append_of_isSpace fun c hc => isSpace_of_isIndent (hinner c hc)] at hblank
        rw [isBlank_append_of_isSpace fun c hc => isSpace_of_isIndent (houter c hc), hblank]
      rw [moveIndent_of_visible hblank, moveIndent_of_visible hback]
      exact iff_of_true rfl fun _ _ => List.prefix_append inner rest
    · -- The line is still the same when it is moved back.
      rw [moveIndent_of_not_startsWith hprefix, moveIndent_eq_self_iff, hblank,
        or_iff_right Bool.false_ne_true, Bool.eq_false_iff, ne_eq, startsWith_iff]
      constructor
      · rintro (hother | rfl) - hstarts
        · exact absurd hstarts hother
        · exact hstarts
      · exact fun h => .inl fun hstarts => hprefix (h rfl hstarts)

/-- An indentation is spaces and tabs. -/
theorem forall_isIndent_indent (line : Text) : ∀ c ∈ indent line, isIndent c = true :=
  fun _ => isIndent_of_mem_indent

/-- Moved lines are the same but for their indentation, and those that are blank are the same. -/
theorem forall₂_reindent (ls : List Text) (source target : Text) :
    List.Forall₂ (fun line moved => (line.isBlank = true → moved = line) ∧
      moved.afterIndent = line.afterIndent) ls (reindent ls source target) := by
  rw [reindent, List.forall₂_map_right_iff, List.forall₂_same]
  exact fun line _ => ⟨fun hblank => moveIndent_of_isBlank hblank,
    afterIndent_moveIndent (forall_isIndent_indent source) (forall_isIndent_indent target) line⟩

/-- Lines that are moved and moved back are the same just if each visible one that starts with the
indentation they are moved to starts with the one they are moved from. -/
theorem reindent_reindent_iff (ls : List Text) (source target : Text) :
    reindent (reindent ls source target) target source = ls ↔
      ∀ line ∈ ls, line.isBlank = false → indent target <+: line → indent source <+: line := by
  rw [reindent, reindent, List.map_map]
  conv_lhs => rhs; rw [← List.map_id ls]
  rw [List.map_inj_left]
  exact forall₂_congr fun line _ => moveIndent_moveIndent_iff (forall_isIndent_indent source)
    (forall_isIndent_indent target)

/-- **Moving lines to another indentation can be undone.** As many lines come out as go in. Blank
ones are the same, and all others are the same but for their indentation. If every visible line
starts with the indentation that is taken off, then moving the lines back gives the same lines
again; and it does so just if no visible line starts with the other indentation without starting
with that one. -/
theorem reindent_reversible (ls : List Text) (source target : Text) :
    (reindent ls source target).length = ls.length ∧
    List.Forall₂ (fun line moved => (line.isBlank = true → moved = line) ∧
      moved.afterIndent = line.afterIndent) ls (reindent ls source target) ∧
    ((∀ line ∈ ls, line.isBlank = false → indent source <+: line) →
      reindent (reindent ls source target) target source = ls) ∧
    (reindent (reindent ls source target) target source = ls ↔
      ∀ line ∈ ls, line.isBlank = false → indent target <+: line → indent source <+: line) := by
  refine ⟨List.length_map _, forall₂_reindent ls source target, fun h => ?_,
    reindent_reindent_iff ls source target⟩
  exact (reindent_reindent_iff ls source target).mpr fun line hline hvisible _ =>
    h line hline hvisible

/-- Lines are moved from spaces to a tab and back, and keep the spaces beyond the first four and
those of a line that is blank. -/
theorem reindent_reversible_tab :
    (∀ line ∈ ["    a".toList, "  ".toList, "      b".toList], isBlank line = false →
      indent "    x".toList <+: line) ∧
    reindent ["    a".toList, "  ".toList, "      b".toList] "    x".toList "\ty".toList =
      ["\ta".toList, "  ".toList, "\t  b".toList] ∧
    reindent ["\ta".toList, "  ".toList, "\t  b".toList] "\ty".toList "    x".toList =
      ["    a".toList, "  ".toList, "      b".toList] := by
  have hstarts : ∀ line ∈ ["    a".toList, "  ".toList, "      b".toList], isBlank line = false →
      indent "    x".toList <+: line := by decide
  obtain ⟨-, -, hback, -⟩ := reindent_reversible
    ["    a".toList, "  ".toList, "      b".toList] "    x".toList "\ty".toList
  exact ⟨hstarts, by decide, hback hstarts⟩

end Emend.Text
