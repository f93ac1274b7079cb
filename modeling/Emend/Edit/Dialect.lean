import Emend.Block.Marker
import Emend.Setting.Value
import Emend.Text.LineEnding

/-!
# Dialects of edit texts

An edit text is written in one of two dialects: search and replace blocks, or the hunks of a
unified diff. A caller names the dialect, or it is told from the lines of the text: a text with a
start and an end line of blocks is of the first dialect, whatever else it holds, so that lines in a
block that look like a diff do not matter; a text with a hunk header or a file header is of the
second.
-/

namespace Emend

/-- The way an edit text is written. -/
inductive Dialect where
  /-- Search and replace blocks. -/
  | blocks
  /-- Hunks of a unified diff. -/
  | hunks
  deriving DecidableEq, Repr

/-- A text of neither dialect, or a name of none. -/
inductive UnknownDialect where
  /-- The value names no dialect. -/
  | named (given : Text)
  /-- The edit text shows signs of neither dialect. -/
  | undetected
  deriving DecidableEq, Repr

/-- What is said about an unknown dialect. -/
def UnknownDialect.message : UnknownDialect → String
  | .named given => s!"Unknown diff format: {String.ofList given}"
  | .undetected =>
    "Unknown diff format: no SEARCH/REPLACE markers or unified diff headers found"

namespace Dialect

/-- The name of a dialect. -/
def name : Dialect → String
  | .blocks => "search-replace"
  | .hunks => "unified"

/-- The dialect that a value names. Spaces around the name and the case of its letters do not
matter, and a low line counts as a hyphen. Neither name holds a character that is the small form of
one beyond ASCII. -/
def ofValue (v : Value) : Except UnknownDialect Dialect :=
  let key := (v.plain.strip.map Char.toLower).map fun c => if c = '_' then '-' else c
  if key = Dialect.blocks.name.toList then .ok .blocks
  else if key = Dialect.hunks.name.toList then .ok .hunks
  else .error (.named v.plain)

/-- Whether a text has a start line and an end line of blocks. -/
def looksLikeBlocks (edit : Text) : Bool :=
  let ls := edit.unifyEndings.lines
  ls.any (Marker.ofLine · == .start) && ls.any (Marker.ofLine · == .finish)

/-- The words that the headers of a unified diff start with: that of a hunk, those of the two
files, and that of a pair of files. -/
def headerWords : List Text :=
  [['@', '@'], ['-', '-', '-', ' '], ['+', '+', '+', ' '], "diff --git ".toList]

/-- Whether a text has a line that starts like a header of a unified diff. -/
def looksLikeHunks (edit : Text) : Bool :=
  edit.unifyEndings.lines.any fun l => headerWords.any (Text.startsWith · l)

/-- The dialect of an edit text. -/
def detect (edit : Text) : Except UnknownDialect Dialect :=
  if looksLikeBlocks edit then .ok .blocks
  else if looksLikeHunks edit then .ok .hunks
  else .error .undetected

end Dialect

end Emend
