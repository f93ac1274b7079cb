import Emend.Match.Candidate
import Emend.Text.Indent

/-!
# Windows of lines

Three strategies compare the search text with every window of as many consecutive lines of the
document. A window knows where its first line starts. The candidate made of it covers its lines,
and the line feed after them only if the search text ends with one and the document has one there,
so that putting other lines in its place keeps all other lines as they are.
-/

namespace Emend.Match

/-- Consecutive lines of a document. -/
structure Window where
  /-- Where the first of the lines starts. -/
  start : Nat
  /-- The lines, without line feeds. -/
  lines : List Text
  deriving DecidableEq, Repr

/-- The windows of `size` lines of a document that goes on with `ls` at `start`. -/
def windowsFrom (size start : Nat) : List Text → List Window
  | [] => []
  | l :: ls =>
    let lines := (l :: ls).take size
    if lines.length < size then []
    else ⟨start, lines⟩ :: windowsFrom size (start + l.length + 1) ls

/-- The windows of `size` lines of a document, in order. -/
def windows (size : Nat) (content : Text) : List Window :=
  windowsFrom size 0 (Text.bodyLines content)

/-- The candidate that a window of a document makes for a search text. -/
def Window.candidate (content search : Text) (strategy : Strategy) (confidence : Rat)
    (w : Window) : Candidate :=
  let size := (Text.unlines w.lines).length
  let withBreak := Text.endsLine search && decide (w.start + size < content.length)
  ⟨w.start, if withBreak then size + 1 else size, strategy, confidence⟩

/-- The windows whose lines are those of the search text once both went through `normal`. The first
lines are compared before that, as most windows already differ there. -/
def sameLines (normal : List Text → List Text) (content search : Text) : List Window :=
  let wanted := normal (Text.bodyLines search)
  let first := (wanted.headD []).strip
  (windows wanted.length content).filter fun w =>
    (w.lines.headD []).strip == first && normal w.lines == wanted

/-- The windows whose lines are those of the search text up to the spaces around each line. -/
def lineTrimmed (content search : Text) : List Candidate :=
  (sameLines (List.map Text.strip) content search).map
    (Window.candidate content search .lineTrimmed 1)

/-- The windows whose lines are those of the search text once each side lost the indentation that
its lines share. -/
def indentationAgnostic (content search : Text) : List Candidate :=
  (sameLines Text.dedent content search).map
    (Window.candidate content search .indentationAgnostic 1)

end Emend.Match
