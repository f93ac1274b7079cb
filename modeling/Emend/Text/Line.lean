import Emend.Text.Basic

/-!
# Lines

A line feed ends a line. `lines` are the pieces between line feeds, so that joining them gives the
text back; `bodyLines` leaves out the empty piece after a final line feed, as one counts the lines
of a document. Edit texts are read by `rows` instead, which keep their ends and also end at the
other characters that break a row in print: vertical tab, form feed, the separators `1C` to `1E`,
next line, and the line and paragraph separators.
-/

namespace Emend.Text

/-- The pieces between the line feeds of a text. -/
def lines (t : Text) : List Text := cut (· == '\n') t

/-- The lines of a text in which a final line feed only ends the last one. -/
def bodyLines (t : Text) : List Text :=
  if endsLine t then (lines t).dropLast else lines t

/-- Lines with a line feed between each two. -/
def unlines (ls : List Text) : Text := join ['\n'] ls

/-- How many characters lines take with a line feed after each of them. -/
def extent (ls : List Text) : Nat := ls.foldr (fun l n => l.length + 1 + n) 0

/-- Whether a character ends a row; carriage returns are left out, as rows are only taken of texts
whose line endings are line feeds. -/
def isRowEnd (c : Char) : Bool :=
  let n := c.toNat
  (0x0A ≤ n && n ≤ 0x0C) || (0x1C ≤ n && n ≤ 0x1E) || n == 0x85 || n == 0x2028 || n == 0x2029

/-- The rows of a text, each with the character that ends it. -/
def rows (t : Text) : List Text := cutAfter isRowEnd t

/-- A row without the line feed that ends it; any other end stays part of the row. -/
def rowBody (row : Text) : Text := if endsLine row then row.dropLast else row

/-- A text that is not empty gets a final line feed if it has none. -/
def terminated (t : Text) : Text :=
  if t.isEmpty || endsLine t then t else t ++ ['\n']

theorem unlines_lines (t : Text) : unlines (lines t) = t := join_cut_eq '\n' t

end Emend.Text
