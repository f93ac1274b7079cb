import Emend.Text.Basic

/-!
# Excerpts

Failed edits are reported with the start of the text that could not be found.
-/

namespace Emend.Text

/-- Whether a character is a carriage return or a line feed. -/
def isBreak (c : Char) : Bool := c == '\r' || c == '\n'

/-- A text without the carriage returns and line feeds around it. -/
def stripBreaks (t : Text) : Text :=
  ((t.dropWhile isBreak).reverse.dropWhile isBreak).reverse

/-- At most `limit` characters of a text without its outer line breaks. A longer text is cut to
leave room for three dots, which are written however small the limit is. -/
def excerpt (limit : Int) (t : Text) : Text :=
  let body := stripBreaks t
  if (body.length : Int) ≤ limit then body
  else body.take (limit - 3).toNat ++ ['.', '.', '.']

/-- The limit of an excerpt in a report. -/
def reportLimit : Int := 120

/-- The limit of an excerpt inside a one-line message. -/
def messageLimit : Int := 60

end Emend.Text
