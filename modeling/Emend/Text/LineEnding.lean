import Emend.Text.Basic

/-!
# Line endings

A text may end its lines with a line feed, a carriage return, or the two together. Edits are
worked out on texts with line feeds only (`unifyEndings`) and written back in the style that the
document uses most (`dominantEnding`, `writeEndings`). All three read the line breaks of a text
from left to right, a carriage return and the line feed after it being one break.
-/

namespace Emend

/-- A style of ending a line. -/
inductive LineEnding where
  /-- A line feed. -/
  | lf
  /-- A carriage return and a line feed. -/
  | crlf
  /-- A carriage return. -/
  | cr
  deriving DecidableEq, Repr

/-- The characters that a line ending consists of. -/
def LineEnding.text : LineEnding → Text
  | .lf => ['\n']
  | .crlf => ['\r', '\n']
  | .cr => ['\r']

namespace Text

/-- The line breaks of a text, in order. -/
def breaks : Text → List LineEnding
  | [] => []
  | '\r' :: '\n' :: r => .crlf :: breaks r
  | c :: r =>
    if c = '\n' then .lf :: breaks r
    else if c = '\r' then .cr :: breaks r
    else breaks r

/-- The style with the most line breaks. Of equally frequent ones a line feed comes first, then
both characters together; a text without line breaks has the line feed. -/
def dominantEnding (t : Text) : LineEnding :=
  let n := fun e => (breaks t).count e
  if n .crlf ≤ n .lf ∧ n .cr ≤ n .lf then .lf
  else if n .cr ≤ n .crlf then .crlf
  else .cr

/-- A text with a line feed for each of its line breaks. -/
def unifyEndings : Text → Text
  | [] => []
  | '\r' :: '\n' :: r => '\n' :: unifyEndings r
  | c :: r => (if c = '\r' then '\n' else c) :: unifyEndings r

/-- A text with `ending` in place of each line feed. -/
def writeEndings (t ending : Text) : Text :=
  t.flatMap fun c => if c = '\n' then ending else [c]

theorem cr_notMem_unifyEndings (t : Text) : '\r' ∉ unifyEndings t := by
  fun_induction unifyEndings t with
  | case1 => simp
  | case2 r ih => simp [ih]
  | case3 c r _ ih => split <;> simp_all [eq_comm]

end Text

end Emend
