import Emend.Text.Basic

/-!
# Spaces and words

The characters that count as spaces, and what is built on them: a text without its outer spaces
(`strip`), blank texts, which hold nothing else, and the words of a text, which are its longest
stretches without a space.
-/

namespace Emend.Text

/-- Whether a character is a space of some kind: the controls from tab to carriage return and from
`1C` to `1F`, space, next line, and the space, line and paragraph separators of Unicode. -/
def isSpace (c : Char) : Bool :=
  let n := c.toNat
  (0x09 ≤ n && n ≤ 0x0D) || (0x1C ≤ n && n ≤ 0x20) || n == 0x85 || n == 0xA0 || n == 0x1680 ||
    (0x2000 ≤ n && n ≤ 0x200A) || n == 0x2028 || n == 0x2029 || n == 0x202F || n == 0x205F ||
    n == 0x3000

/-- A text without the spaces it starts with. -/
def stripStart (t : Text) : Text := t.dropWhile isSpace

/-- A text without the spaces it ends with. -/
def stripEnd (t : Text) : Text := (t.reverse.dropWhile isSpace).reverse

/-- A text without the spaces around it. -/
def strip (t : Text) : Text := stripEnd (stripStart t)

/-- Whether a text holds nothing but spaces. -/
def isBlank (t : Text) : Bool := t.all isSpace

/-- The longest stretches of a text without a space, in order. -/
def words (t : Text) : List Text := (cut isSpace t).filter (!·.isEmpty)

/-- The spaces that a text starts with. -/
def leadingSpaces (t : Text) : Text := t.takeWhile isSpace

/-- The spaces that a text ends with. -/
def trailingSpaces (t : Text) : Text := (t.reverse.takeWhile isSpace).reverse

theorem leadingSpaces_append_stripStart (t : Text) : leadingSpaces t ++ stripStart t = t :=
  List.takeWhile_append_dropWhile

theorem stripEnd_append_trailingSpaces (t : Text) : stripEnd t ++ trailingSpaces t = t := by
  rw [stripEnd, trailingSpaces, ← List.reverse_append, List.takeWhile_append_dropWhile,
    List.reverse_reverse]

end Emend.Text
