import Emend.Text.Line
import Emend.Text.LineEnding

/-!
# Lines of a diff

Before a diff is read its lines are told apart by how they start: the header of a hunk, the header
of a pair of files, the two lines that name the old and the new file, and all others. A line that
starts like the name of an old file is one only if the name of a new file follows, so that a
removed line that starts with two hyphens and a space is not taken for it.
-/

namespace Emend

/-- What a line of a diff is, told from how it starts. -/
inductive DiffLine where
  /-- A line that starts like the header of a hunk. -/
  | hunk (line : Text)
  /-- A line that starts the changes of another pair of files. -/
  | pair
  /-- Two lines that name the old and the new file. -/
  | files (old new : Text)
  /-- Any other line. -/
  | body (line : Text)
  deriving DecidableEq, Repr

namespace DiffLine

/-- How the header of a hunk starts. -/
def hunkWord : Text := ['@', '@']

/-- How a line that names an old file starts. -/
def oldWord : Text := ['-', '-', '-', ' ']

/-- How a line that names a new file starts. -/
def newWord : Text := ['+', '+', '+', ' ']

/-- How the header of a pair of files starts. -/
def pairWord : Text := ['d', 'i', 'f', 'f', ' ', '-', '-', 'g', 'i', 't', ' ']

/-- What a line is on its own. -/
def ofLine (line : Text) : DiffLine :=
  if Text.startsWith hunkWord line then .hunk line
  else if Text.startsWith pairWord line then .pair
  else .body line

/-- Whether two lines in a row name the old and the new file. -/
def namesFiles (line next : Text) : Bool :=
  Text.startsWith oldWord line && Text.startsWith newWord next

/-- What the lines of a diff are. -/
def ofLines : List Text → List DiffLine
  | [] => []
  | [line] => [ofLine line]
  | line :: next :: rest =>
    if namesFiles line next then .files line next :: ofLines rest
    else ofLine line :: ofLines (next :: rest)

/-- How many lines of the diff it stands for. -/
def height : DiffLine → Nat
  | .files _ _ => 2
  | _ => 1

/-- Whether an added or removed line comes before the next header of any kind. -/
def changesFollow : List DiffLine → Bool
  | .body ('+' :: _) :: _ => true
  | .body ('-' :: _) :: _ => true
  | .body _ :: rest => changesFollow rest
  | _ => false

/-- The lines of an edit text as a diff. -/
def ofEdit (edit : Text) : List DiffLine := ofLines edit.unifyEndings.bodyLines

end DiffLine

end Emend
