import Emend.Text.Line
import Emend.Text.Indent

/-!
# Marker lines

Three kinds of lines delimit the sections of a block: a run of five to nine `<` and the word
SEARCH, a run of as many `=`, and a run of as many `>` and the word REPLACE. Spaces and tabs may
follow. A line is of one kind at most, as the kinds start with different characters.
-/

namespace Emend

/-- What a line of an edit text is to the blocks in it. -/
inductive Marker where
  /-- The line before a search text. -/
  | start
  /-- The line between a search text and its replacement. -/
  | separator
  /-- The line after a replacement. -/
  | finish
  /-- Any other line. -/
  | other
  deriving DecidableEq, Repr

namespace Marker

/-- The word of a start line, with the space before it. -/
def searchWord : Text := [' ', 'S', 'E', 'A', 'R', 'C', 'H']

/-- The word of an end line, with the space before it. -/
def replaceWord : Text := [' ', 'R', 'E', 'P', 'L', 'A', 'C', 'E']

/-- Whether a line is a run of five to nine times the character, the word, and spaces and tabs. -/
def isRun (c : Char) (word line : Text) : Bool :=
  let size := (line.takeWhile (· == c)).length
  let rest := Text.after word (line.dropWhile (· == c))
  5 ≤ size && size ≤ 9 && (rest.map (·.all Text.isIndent)).getD false

/-- The kind of a line, which is given without its end. -/
def ofLine (line : Text) : Marker :=
  if isRun '<' searchWord line then .start
  else if isRun '=' [] line then .separator
  else if isRun '>' replaceWord line then .finish
  else .other

/-- The kind of a row of an edit text. A row that ends with another character than a line feed is
no marker line, as that character is part of it. -/
def ofRow (row : Text) : Marker := ofLine (Text.rowBody row)

/-- The start line that is written. -/
def startLine : Text := List.replicate 7 '<' ++ searchWord ++ ['\n']

/-- The separator line that is written. -/
def separatorLine : Text := List.replicate 7 '=' ++ ['\n']

/-- The end line that is written. -/
def finishLine : Text := List.replicate 7 '>' ++ replaceWord ++ ['\n']

end Marker

end Emend
