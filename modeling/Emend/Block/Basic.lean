import Emend.Block.Marker

/-!
# Edit blocks

An edit block replaces one stretch of a document by another text. It is written as two sections
between marker lines, and a section that is not empty ends with a line feed there.
-/

namespace Emend

/-- One replacement: what to look for in the document, and what to put in its place. -/
structure EditBlock where
  /-- The number of the block, counted from zero in the order of an edit text. -/
  index : Int
  /-- The text to look for. -/
  search : Text
  /-- The text to put in its place. -/
  replacement : Text
  deriving DecidableEq, Repr

/-- A list of sections that is not the two of a block. -/
inductive SectionError where
  /-- There are fewer than two sections. -/
  | tooFew (count : Nat)
  /-- There are more than two sections. -/
  | tooMany
  deriving DecidableEq, Repr

/-- What is said about a wrong count of sections. -/
def SectionError.message : SectionError → String
  | .tooFew count => s!"not enough values to unpack (expected 2, got {count})"
  | .tooMany => "too many values to unpack (expected 2)"

namespace EditBlock

/-- The two sections of a block, taken from a list. -/
def sections? : List Text → Except SectionError (Text × Text)
  | [search, replacement] => .ok (search, replacement)
  | [] => .error (.tooFew 0)
  | [_] => .error (.tooFew 1)
  | _ => .error .tooMany

/-- A block as it is written in an edit text. -/
def write (search replacement : Text) : Text :=
  Marker.startLine ++ search.terminated ++ Marker.separatorLine ++ replacement.terminated ++
    Marker.finishLine

/-- Blocks as they are written in an edit text, one after another. -/
def writeAll (blocks : List (Text × Text)) : Text := blocks.flatMap fun b => write b.1 b.2

/-- Blocks given as lists of sections, as they are written in an edit text. -/
def writeSections (blocks : List (List Text)) : Except SectionError Text :=
  (blocks.mapM sections?).map writeAll

end EditBlock

end Emend
