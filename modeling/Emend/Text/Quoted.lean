import Emend.Text.Printable

/-!
# Quoted texts

Messages show a text that may hold anything between quotes and on one line. Single quotes are
used unless the text holds a single quote and no double one.
-/

namespace Emend.Text

/-- The lower-case digits of a number in base sixteen, with zeros in front up to `width` digits. -/
def hexDigits (width n : Nat) : Text :=
  let digits := Nat.toDigits 16 n
  List.replicate (width - digits.length) '0' ++ digits

/-- The quote to put around a text. -/
def quoteFor (t : Text) : Char :=
  if t.contains '\'' && !t.contains '"' then '"' else '\''

/-- A character of a quoted text: the quote and the backslash take a backslash in front, the line
breaks and the tab have letters, and what cannot be seen is written in base sixteen with the
fewest of two, four or eight digits. -/
def escapeChar (quote c : Char) : Text :=
  if c = quote ∨ c = '\\' then ['\\', c]
  else if c = '\n' then ['\\', 'n']
  else if c = '\r' then ['\\', 'r']
  else if c = '\t' then ['\\', 't']
  else if isPrintable c then [c]
  else if c.toNat < 0x100 then '\\' :: 'x' :: hexDigits 2 c.toNat
  else if c.toNat < 0x10000 then '\\' :: 'u' :: hexDigits 4 c.toNat
  else '\\' :: 'U' :: hexDigits 8 c.toNat

/-- A text between quotes, on one line. -/
def quoted (t : Text) : Text :=
  let quote := quoteFor t
  quote :: t.flatMap (escapeChar quote) ++ [quote]

end Emend.Text
