import Emend.Match.Candidate
import Emend.Text.Indent

/-!
# Matches of words

The words of the search text are found in order, with any spaces between each two. Around them a
match reaches as far as the search text has an edge there (`Edge`). Before the first word it takes
the spaces and tabs that stand there, and a line feed before these if the search text starts with a
blank line. After the last word it takes spaces and tabs only up to the end of the line, with the
line feed if the search text ends with one, so that the rest of a line is never torn off. The
matches of a document are read from left to right and do not overlap.
-/

namespace Emend.Match

/-- What a search text has before its first word or after its last one. -/
inductive Edge where
  /-- Nothing. -/
  | bare
  /-- Spaces within one line. -/
  | inline
  /-- Spaces with a line feed among them. -/
  | line
  deriving DecidableEq, Repr

/-- The edge that outer spaces make. -/
def Edge.ofSpaces (spaces : Text) : Edge :=
  if spaces.contains '\n' then .line
  else if spaces.isEmpty then .bare
  else .inline

/-- What follows the words at the start of a text, with at least one space between each two. -/
def afterWords : List Text → Text → Option Text
  | [], t => some t
  | [w], t => Text.after w t
  | w :: v :: ws, t =>
    match Text.after w t with
    | some (c :: rest) =>
      if Text.isSpace c then afterWords (v :: ws) (rest.dropWhile Text.isSpace) else none
    | _ => none

/-- What follows the words in a text that has the edge before them; `atStart` says whether the text
is the whole document, whose start counts as the start of a line. -/
def afterLead (lead : Edge) (words : List Text) (atStart : Bool) (t : Text) : Option Text :=
  match lead with
  | .bare => afterWords words t
  | .inline => afterWords words (t.dropWhile Text.isIndent)
  | .line =>
    match t with
    | '\n' :: rest => afterWords words (rest.dropWhile Text.isIndent)
    | _ => if atStart then afterWords words (t.dropWhile Text.isIndent) else none

/-- What is left of a text after the edge at its start. Spaces and tabs belong to the edge only if
they reach the end of the line. -/
def afterTrail (trail : Edge) (t : Text) : Text :=
  match trail, t.dropWhile Text.isIndent with
  -- Without an edge, or where the line goes on, the match stops at its last word.
  | .bare, _ => t
  | _, [] => []
  | .inline, c :: rest => if c = '\n' then c :: rest else t
  | .line, c :: rest => if c = '\n' then rest else t

/-- The stretches of a text that `read` reads, each the first after the one before: where each
starts, counted from `start`, and its length. `read` is told whether it stands at place zero and
returns what it leaves; `skip` characters belong to the stretch before. -/
def stretches (read : Bool → Text → Option Text) : Nat → Nat → Text → List (Nat × Nat)
  | _, _, [] => []
  | start, skip + 1, _ :: t => stretches read (start + 1) skip t
  | start, 0, c :: t =>
    match read (start == 0) (c :: t) with
    | some rest =>
      let size := (c :: t).length - rest.length
      (start, size) :: stretches read (start + 1) (size - 1) t
    | none => stretches read (start + 1) 0 t

/-- The matches of the words of the search text, up to spaces. A search text without words has
none. -/
def whitespaceNormalized (content search : Text) : List Candidate :=
  let words := search.words
  if words.isEmpty then []
  else
    let lead := Edge.ofSpaces search.leadingSpaces
    let trail := Edge.ofSpaces search.trailingSpaces
    let read := fun atStart t => (afterLead lead words atStart t).map (afterTrail trail)
    (stretches read 0 0 content).map fun (place, size) => ⟨place, size, .whitespaceNormalized, 1⟩

end Emend.Match
