import Emend.Text.Indent
import Mathlib.Data.List.TakeWhile

/-!
# Moved lines

A line that is moved to another indentation either stays as it is or has the one in the place of the
other (`moveIndent_cases`), so it changes in nothing else: spaces and tabs are spaces
(`isSpace_of_isIndent`), so that an indentation in front of a text is taken off with the spaces
around it (`strip_append_of_isSpace`), and the line without those stays the same
(`strip_moveIndent`).
-/

namespace Emend.Text

variable {c : Char} {s t line inner : Text}

/-- What indents a line is a space. -/
theorem isSpace_of_isIndent (h : isIndent c = true) : isSpace c = true := by
  rcases Bool.or_eq_true_iff.mp h with h | h
  · rw [beq_iff_eq.mp h]
    decide
  · rw [beq_iff_eq.mp h]
    decide

/-- An indentation is spaces and tabs. -/
theorem isIndent_of_mem_indent (h : c ∈ indent line) : isIndent c = true :=
  List.mem_takeWhile_imp h

/-- Spaces and tabs in front of a line are part of its indentation. -/
theorem indent_append (h : ∀ c ∈ s, isIndent c = true) (line : Text) :
    indent (s ++ line) = s ++ indent line :=
  List.takeWhile_append_of_pos h

/-- Spaces in front are taken off. -/
theorem strip_append_of_isSpace (h : ∀ c ∈ s, isSpace c = true) (t : Text) :
    strip (s ++ t) = strip t := by
  rw [strip, strip, stripStart, stripStart, List.dropWhile_append_of_pos h]

/-- They do not matter to whether a text is blank. -/
theorem isBlank_append_of_isSpace (h : ∀ c ∈ s, isSpace c = true) (t : Text) :
    isBlank (s ++ t) = isBlank t := by
  rw [isBlank, isBlank, List.all_append, List.all_eq_true.mpr h, Bool.true_and]

/-! ## Moved lines -/

/-- A blank line stays where it is. -/
theorem moveIndent_of_isBlank {outer : Text} (h : line.isBlank = true) :
    moveIndent inner outer line = line := if_pos h

/-- A visible line that starts with an indentation gets the other one in its place. -/
theorem moveIndent_of_visible {rest : Text} (h : (inner ++ rest).isBlank = false) (outer : Text) :
    moveIndent inner outer (inner ++ rest) = outer ++ rest := by
  rw [moveIndent, if_neg (Bool.eq_false_iff.mp h), after_eq_some_iff.mpr rfl]

/-- A line that is moved is the same, or it is visible, starts with the indentation that is taken
off and gets the other one in its place. -/
theorem moveIndent_cases (inner outer line : Text) : moveIndent inner outer line = line ∨
    ∃ rest, line = inner ++ rest ∧ line.isBlank = false ∧
      moveIndent inner outer line = outer ++ rest := by
  cases hblank : line.isBlank with
  | true => exact .inl (moveIndent_of_isBlank hblank)
  | false =>
    cases hrest : after inner line with
    | some rest =>
      obtain rfl := after_eq_some_iff.mp hrest
      exact .inr ⟨rest, rfl, rfl, moveIndent_of_visible hblank outer⟩
    | none => exact .inl (by rw [moveIndent, hrest, ite_self])

/-- A moved line is the same but for the spaces around it. -/
theorem strip_moveIndent {outer : Text} (hinner : ∀ c ∈ inner, isIndent c = true)
    (houter : ∀ c ∈ outer, isIndent c = true) (line : Text) :
    (moveIndent inner outer line).strip = line.strip := by
  rcases moveIndent_cases inner outer line with h | ⟨rest, rfl, -, h⟩
  · rw [h]
  · rw [h, strip_append_of_isSpace fun c hc => isSpace_of_isIndent (houter c hc),
      strip_append_of_isSpace fun c hc => isSpace_of_isIndent (hinner c hc)]

end Emend.Text
