import Emend.Match.Ambiguity

/-!
# Warnings

A warning tells of something that was odd but did not keep an edit from being applied.
-/

namespace Emend

/-- What an edit text consists of. -/
inductive UnitKind where
  /-- Search and replace blocks. -/
  | block
  /-- Hunks of a unified diff. -/
  | hunk
  deriving DecidableEq, Repr

namespace UnitKind

/-- The word for a unit. -/
def word : UnitKind → String
  | .block => "block"
  | .hunk => "hunk"

/-- The name of a unit, counted from one. -/
def label : UnitKind → Int → String
  | .block, index => s!"Block {index + 1}"
  | .hunk, index => s!"Hunk {index + 1}"

end UnitKind

/-- Something odd about an edit. -/
inductive Warning where
  /-- A warning that the caller brings. -/
  | given (text : Text)
  /-- The header of a hunk declares another count of old lines than the hunk has. -/
  | oldCount (index : Int) (header : Text) (declared : Int) (seen : Nat)
  /-- The header of a hunk declares another count of new lines than the hunk has. -/
  | newCount (index : Int) (header : Text) (declared : Int) (seen : Nat)
  /-- A diff names several files. -/
  | severalFiles (paths : List Text)
  /-- A unit fits several places equally well. -/
  | ambiguous (kind : UnitKind) (index : Int) (tie : Ambiguity)
  /-- A hunk was applied although some of its context lines differ. -/
  | fuzz (index : Int) (lines : Nat) (line : Nat)
  deriving DecidableEq, Repr

/-- What a warning says. -/
def Warning.message : Warning → String
  | .given text => String.ofList text
  | .oldCount index header declared seen =>
    s!"{UnitKind.hunk.label index} ({String.ofList header}): header declares {declared} " ++
      s!"original line(s) but body has {seen} context/remove line(s)"
  | .newCount index header declared seen =>
    s!"{UnitKind.hunk.label index} ({String.ofList header}): header declares {declared} " ++
      s!"new line(s) but body has {seen} context/add line(s)"
  | .severalFiles paths =>
    let names := ", ".intercalate (paths.map String.ofList)
    s!"Diff names {paths.length} files ({names}); all hunks are applied to the given content"
  | .ambiguous kind index tie => s!"{kind.label index}: {tie.message}"
  | .fuzz index lines line =>
    s!"{UnitKind.hunk.label index}: applied with fuzz {lines} at line {line}"

end Emend
