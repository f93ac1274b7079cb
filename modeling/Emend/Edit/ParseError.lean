import Emend.Text.Quoted

/-!
# Faults of an edit text

Reading an edit text fails as a whole when it is not built as its dialect asks. The fault says what
is wrong, and the unit it was met in, counted from zero, unless it belongs to none.
-/

namespace Emend

/-- What is wrong with an edit text. -/
inductive Fault where
  /-- A block starts on a line while the search text of the one before is still open. -/
  | missingSeparator (line : Nat)
  /-- A block ends on a line before its separator. -/
  | earlyEnd (line : Nat)
  /-- A block starts on a line while the replacement of the one before is still open. -/
  | missingEnd (line : Nat)
  /-- The text ends in the search text of a block. -/
  | openSearch
  /-- The text ends in the replacement of a block. -/
  | openReplacement
  /-- The text holds no block. -/
  | noBlocks
  /-- A hunk has no lines. -/
  | emptyHunk
  /-- A line starts like a hunk header and is none. -/
  | malformedHeader (line : Text)
  /-- The text holds no hunk. -/
  | noHunks
  deriving DecidableEq, Repr

/-- What is said about a fault. -/
def Fault.message : Fault → String
  | .missingSeparator line => s!"missing '=======' separator before line {line}"
  | .earlyEnd line => s!"'>>>>>>> REPLACE' on line {line} before the '=======' separator"
  | .missingEnd line => s!"missing '>>>>>>> REPLACE' before line {line}"
  | .openSearch => "unterminated block: missing '=======' and '>>>>>>> REPLACE'"
  | .openReplacement => "unterminated block: missing '>>>>>>> REPLACE'"
  | .noBlocks => "no SEARCH/REPLACE blocks found"
  | .emptyHunk => "hunk has no body lines"
  | .malformedHeader line => s!"malformed hunk header: {String.ofList line.quoted}"
  | .noHunks => "unified diff contains no hunks"

/-- A fault and the unit of the edit text it was met in. -/
structure ParseError where
  /-- What is wrong. -/
  fault : Fault
  /-- The unit, counted from zero, if the fault belongs to one. -/
  unit : Option Nat
  deriving DecidableEq, Repr

/-- What is said about a fault, with its unit counted from one. -/
def ParseError.message (e : ParseError) : String :=
  match e.unit with
  | some i => s!"block {i + 1}: {e.fault.message}"
  | none => e.fault.message

end Emend
