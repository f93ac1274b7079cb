import Emend.Apply.Batch
import Emend.Hunk.Anchor
import Emend.Hunk.Reader
import Emend.Hunk.Rebuild
import Emend.Setting.Options

/-!
# Applying hunks

Hunks are applied to the lines of a document. A numbered hunk is expected at the line it declares,
moved by the drift that the last numbered hunk met: how far it stood from its own line, and how many
lines it added. A bare hunk is expected where the last applied one ended. Whether the document ends
with a line feed follows the marks of a hunk that reaches its end.
-/

namespace Emend

/-- The lines of a document that hunks are applied to, and what was learned from earlier hunks. -/
structure HunkState where
  /-- The lines of the document. -/
  lines : List Text
  /-- Whether the last line ends with a line feed. -/
  finalBreak : Bool
  /-- How far numbered hunks stand from the lines they declare. -/
  offset : Int
  /-- The line after the last applied hunk. -/
  cursor : Nat
  deriving DecidableEq

namespace HunkState

/-- The state of a document before the first hunk. Lines added to an empty document end with a line
feed. -/
def ofContent (content : Text) : HunkState :=
  ⟨if content.isEmpty then [] else content.bodyLines, content.endsLine || content.isEmpty, 0, 0⟩

/-- The document of a state. -/
def content (s : HunkState) : Text :=
  Text.unlines s.lines ++ (if s.finalBreak && !s.lines.isEmpty then ['\n'] else [])

end HunkState

namespace Hunk

/-- The line, counted from zero, that an old side declares: an empty one stands after the line that
it names. -/
def declaredLine (start count : Int) : Int := max 0 (if count > 0 then start - 1 else start)

/-- The line, counted from zero, that a hunk is expected at. A numbered hunk without old lines that
stands before the first line is placed by its new side. -/
def expectedLine (h : Hunk) (offset : Int) (cursor : Nat) : Int :=
  match h.oldStart with
  | none => cursor
  | some start =>
    let new := h.newStart.getD 0
    if start = 0 ∧ h.oldCount = 0 ∧ new ≠ 0 then new - 1
    else declaredLine start h.oldCount + offset

/-- What is said about a hunk that was applied. -/
def announcement (h : Hunk) (a : Anchor) : String :=
  let confidence := String.ofList (fixed 3 a.confidence)
  s!"{UnitKind.hunk.label h.index} applied via {a.level.name} (confidence={confidence}) " ++
    s!"at line {a.position + 1}"

/-- What was odd about the place of a hunk. -/
def placeWarnings (h : Hunk) (a : Anchor) : List Warning :=
  a.ambiguity.toList.map (.ambiguous .hunk h.index ·) ++
    match a.level with
    | .fuzz lines => [.fuzz h.index lines (a.position + 1)]
    | _ => []

/-- Whether the document ends with a line feed after a hunk that leaves `count` lines up to the end
of its region, of `total` lines in all. -/
def finalBreakAfter (h : Hunk) (count total : Nat) (before : Bool) : Bool :=
  if count ≠ total then before
  else if h.newMissingNewline then false
  else if h.oldMissingNewline then true
  else before

/-- The state after a hunk was put into its place. -/
def put (h : Hunk) (s : HunkState) (a : Anchor) : HunkState :=
  let size := h.oldLines.length
  let region := (s.lines.drop a.position).take size
  let new := h.rebuild region a.level.isLoose
  let lines := s.lines.take a.position ++ new ++ s.lines.drop (a.position + size)
  let stop := a.position + new.length
  -- The place of the hunk already holds the drift of all hunks before it.
  let offset :=
    if h.isNumbered then
      ((a.position : Int) - h.expectedLine 0 0) + ((new.length : Int) - size)
    else s.offset
  ⟨lines, h.finalBreakAfter stop lines.length s.finalBreak, offset, stop⟩

/-- The hunk as it was placed at an anchor. -/
def placement (h : Hunk) (s : HunkState) (a : Anchor) : Placement HunkState :=
  let next := h.put s a
  let position := Text.extent (next.lines.take a.position)
  ⟨next, h.placeWarnings a, ⟨h.index, .anchor a.level, a.confidence, position⟩, h.announcement a⟩

/-- The hunk as it failed. -/
def failure (h : Hunk) (reason : Reason) : Attempt HunkState :=
  .failed ⟨h.index, reason, (Text.unlines h.oldLines).excerpt Text.reportLimit⟩
    (.hunk h.index h.header reason)

/-- What comes of a hunk in a state. -/
def attempt (maxFuzz : Nat) (s : HunkState) (h : Hunk) : Traced (Attempt HunkState) := do
  let expected := h.expectedLine s.offset s.cursor
  let size := h.oldLines.length
  Traced.say .debug (s!"{UnitKind.hunk.label h.index} {String.ofList h.header}: {size} old " ++
    s!"line(s), expected at line {expected + 1}")
  if h.changes then
    match ← Anchor.find s.lines h expected maxFuzz with
    | some a => pure (.placed (h.placement s a))
    | none => pure (h.failure (.notLocated size (expected + 1) maxFuzz))
  else pure (h.failure .noChange)

/-- How hunks are applied to a document whose line endings are `ending`. -/
def batch (options : Options) (ending : LineEnding) : Batch Hunk HunkState :=
  ⟨.hunk, Hunk.index, attempt options.maxFuzz, fun s => s.content.writeEndings ending.text⟩

/-- The outcome of applying hunks to a document, with what was odd before. -/
def applyAll (options : Options) (content : Text) (hunks : List Hunk) (warnings : List Warning) :
    Traced Outcome :=
  (batch options content.dominantEnding).apply options.strict options.telemetry content
    (HunkState.ofContent content.unifyEndings) warnings hunks

end Hunk

end Emend
