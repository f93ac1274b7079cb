import Emend.Text.Basic

/-!
# Hunks

A hunk changes one region of the lines of a document. Its lines are context, which stays, removed
lines and added lines; context and removed lines make up the old side, which the hunk expects to
find, and context and added lines the new side. A numbered hunk also says where each side stands
and how many lines it has.
-/

namespace Emend

/-- What a line of a hunk does. -/
inductive LineKind where
  /-- The line stays. -/
  | context
  /-- The line is added. -/
  | add
  /-- The line is removed. -/
  | remove
  deriving DecidableEq, Repr

/-- The name of a kind of lines. -/
def LineKind.name : LineKind → String
  | .context => "context"
  | .add => "add"
  | .remove => "remove"

/-- A line of a hunk. -/
structure HunkLine where
  /-- What the line does. -/
  kind : LineKind
  /-- The line, without what tells its kind. -/
  text : Text
  deriving DecidableEq, Repr

/-- A change of one region of the lines of a document. -/
structure Hunk where
  /-- The number of the hunk, counted from zero in the order of a diff. -/
  index : Int
  /-- Where the old side stands, if the hunk is numbered: its first line counted from one, or the
  line before it if it is empty. -/
  oldStart : Option Int
  /-- How many lines the old side has. -/
  oldCount : Int
  /-- Where the new side stands. -/
  newStart : Option Int
  /-- How many lines the new side has. -/
  newCount : Int
  /-- The lines of the hunk, in order. -/
  lines : List HunkLine
  /-- The header of the hunk up to its closing marker. -/
  header : Text
  /-- Whether the last line of the old side has no line feed. -/
  oldMissingNewline : Bool
  /-- Whether the last line of the new side has no line feed. -/
  newMissingNewline : Bool
  deriving DecidableEq, Repr

namespace Hunk

/-- The lines that the hunk expects to find. -/
def oldSide (h : Hunk) : List HunkLine := h.lines.filter (·.kind != .add)

/-- The texts of the lines that the hunk expects to find. -/
def oldLines (h : Hunk) : List Text := h.oldSide.map HunkLine.text

/-- The texts of the lines that stand there afterwards. -/
def newLines (h : Hunk) : List Text := (h.lines.filter (·.kind != .remove)).map HunkLine.text

/-- Whether the header of the hunk says where it stands. -/
def isNumbered (h : Hunk) : Bool := h.oldStart.isSome

/-- How many context lines the hunk has. -/
def contextCount (h : Hunk) : Nat := h.lines.countP (·.kind = .context)

/-- Whether the hunk adds or removes a line. -/
def changes (h : Hunk) : Bool := h.lines.any (·.kind != .context)

end Hunk

end Emend
