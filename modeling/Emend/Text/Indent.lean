import Emend.Text.Line
import Emend.Text.Blank

/-!
# Indentation

Only spaces and tabs indent a line. `dedent` takes the indentation that the written lines of a
block share off all of them, and `reindent` swaps one indentation for another, which also carries
a block over from spaces to tabs.
-/

namespace Emend.Text

/-- Whether a character indents: a space or a tab. -/
def isIndent (c : Char) : Bool := c == ' ' || c == '\t'

/-- The spaces and tabs that a line starts with. -/
def indent (line : Text) : Text := line.takeWhile isIndent

/-- The longest indentation that all the lines share. -/
def margin : List Text → Text
  | [] => []
  | [l] => indent l
  | l :: m :: ls => shared (indent l) (margin (m :: ls))

/-- A line of nothing but spaces and tabs is made empty. -/
def clearIndent (line : Text) : Text := if line.all isIndent then [] else line

/-- The lines without the indentation shared by those that hold more than spaces and tabs; the
other lines become empty. -/
def dedent (ls : List Text) : List Text :=
  -- Cleared lines say nothing about the shared indentation.
  let cleared := ls.map clearIndent
  let shift := margin (cleared.filter (!·.isEmpty))
  cleared.map (·.drop shift.length)

/-- The first line that is not blank, or the empty line if there is none. -/
def firstVisible (ls : List Text) : Text := (ls.find? (!isBlank ·)).getD []

/-- A line that starts with the indentation `inner` gets `outer` in its place; other lines and
blank ones stay as they are. -/
def moveIndent (inner outer line : Text) : Text :=
  if isBlank line then line
  else
    match after inner line with
    | some rest => outer ++ rest
    | none => line

/-- Lines written at the indentation of `source`, moved to the indentation of `target`. -/
def reindent (ls : List Text) (source target : Text) : List Text :=
  ls.map (moveIndent (indent source) (indent target))

end Emend.Text
