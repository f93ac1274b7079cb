import Emend.Match.Window
import Emend.Similarity

/-!
# Fuzzy matches

The fuzzy strategy compares each window of lines with the search text by `Similarity.ratio`, on
lines without outer spaces and with plain quotes, and keeps the windows whose ratio reaches the
threshold. Two upper bounds on the ratio are tried first, because most windows fail them.
-/

namespace Emend.Match

/-- A character with typographic quotes made plain. -/
def plainQuote (c : Char) : Char :=
  if c = '\u2018' ∨ c = '\u2019' ∨ c = '\u201b' then '\x27'
  else if c = '\u201c' ∨ c = '\u201d' then '\x22'
  else c

/-- A line as the fuzzy strategy compares it: without outer spaces and with plain quotes. -/
def plainLine (line : Text) : Text := line.strip.map plainQuote

/-- Lines as the fuzzy strategy compares them. -/
def plainLines (ls : List Text) : Text := Text.unlines (ls.map plainLine)

/-- How similar a window is to the text it is compared with, if that reaches the threshold. -/
def similarity? (threshold : Binary64) (wanted : Text) (w : Window) : Option Rat :=
  let held := plainLines w.lines
  if threshold.reachedBy (Similarity.lengthBound held wanted) &&
      threshold.reachedBy (Similarity.countBound held wanted) then
    let ratio := Similarity.ratio held wanted
    if threshold.reachedBy ratio then some ratio else none
  else none

/-- The windows that are similar enough to the search text. -/
def fuzzy (threshold : Binary64) (content search : Text) : List Candidate :=
  let wanted := plainLines (Text.bodyLines search)
  (windows (Text.bodyLines search).length content).filterMap fun w =>
    (similarity? threshold wanted w).map fun ratio =>
      w.candidate content search .fuzzy ratio

end Emend.Match
