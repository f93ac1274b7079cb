import Emend.Edit.ParseError
import Emend.Edit.Warning
import Emend.Hunk.Header
import Emend.Log

/-!
# Reading a diff

A diff is read line by line. A header closes the hunk before it, and a hunk header opens the next
one. The lines of a hunk start with a space, a plus or a minus; an empty line is empty context, and
a backslash says that the line before it has no line feed. Context lines that lost their space are
read as context too, while the counts of the header ask for more lines or, in a bare hunk, while
changes follow; otherwise such a line closes the hunk. When a hunk is closed, empty context at its
end is dropped unless the counts ask for it, a numbered header is compared with the lines, and a
bare one gets its counts from them.
-/

namespace Emend

/-- What reading a diff gives. -/
structure ParsedDiff where
  /-- The hunks, in order. -/
  hunks : List Hunk
  /-- What was odd about the diff. -/
  warnings : List Warning
  /-- The old file that the last file header names. -/
  oldPath : Option Text
  /-- The new file that the last file header names. -/
  newPath : Option Text
  deriving DecidableEq

namespace Hunk

/-- Lines of a hunk, the last one first, without the empty context among the first of them. A
numbered hunk keeps as much of it as its count of old lines asks for. -/
def dropPadding (needed : Option Int) : List HunkLine → List HunkLine
  | [] => []
  | l :: ls =>
    let oldCount : Int := (l :: ls).countP (·.kind != .add)
    let spare : Bool :=
      match needed with
      | some count => count < oldCount
      | none => true
    if l == ⟨.context, []⟩ && spare then dropPadding needed ls else l :: ls

/-- A hunk without the padding at its end. -/
def trimmed (h : Hunk) : Hunk :=
  let needed := if h.isNumbered then some h.oldCount else none
  { h with lines := (dropPadding needed h.lines.reverse).reverse }

/-- What is odd about the counts of a numbered hunk. -/
def countWarnings (h : Hunk) : List Warning :=
  let old := h.oldLines.length
  let new := h.newLines.length
  (if old = h.oldCount then [] else [.oldCount h.index h.header h.oldCount old]) ++
    (if new = h.newCount then [] else [.newCount h.index h.header h.newCount new])

/-- A hunk whose counts are those of its lines. -/
def counted (h : Hunk) : Hunk :=
  { h with oldCount := h.oldLines.length, newCount := h.newLines.length }

/-- A hunk at the end of its lines, with what is odd about it; a hunk without lines is a fault. -/
def finish (h : Hunk) : Except Fault (Hunk × List Warning) :=
  let t := h.trimmed
  if t.lines.isEmpty then .error .emptyHunk
  else if t.isNumbered then .ok (t, t.countWarnings)
  else .ok (t.counted, [])

/-- A hunk with one more line. -/
def push (h : Hunk) (kind : LineKind) (text : Text) : Hunk :=
  { h with lines := h.lines ++ [⟨kind, text⟩] }

/-- A hunk whose last line has no line feed, on each side that the line is on. -/
def markMissing (h : Hunk) : Hunk :=
  match h.lines.getLast? with
  | none => h
  | some l =>
    { h with
      oldMissingNewline := h.oldMissingNewline || l.kind != .add
      newMissingNewline := h.newMissingNewline || l.kind != .remove }

/-- Whether a hunk takes a line that has no mark of its kind as context, given what follows. -/
def wants (h : Hunk) (rest : List DiffLine) : Bool :=
  if h.isNumbered then
    decide ((h.oldLines.length : Int) < h.oldCount) ||
      decide ((h.newLines.length : Int) < h.newCount)
  else DiffLine.changesFollow rest

end Hunk

/-- What a reader of a diff knows. -/
structure DiffReader where
  /-- The hunks that are closed. -/
  complete : List Hunk
  /-- The hunk that is open, if there is one. -/
  current : Option Hunk
  /-- What was odd so far. -/
  warnings : List Warning
  /-- The old file that was named last. -/
  oldPath : Option Text
  /-- The new file that was named last. -/
  newPath : Option Text
  /-- The files that were named, each once. -/
  targets : List Text
  /-- How many lines were read. -/
  count : Nat
  /-- The records of the work. -/
  trace : List Record

namespace DiffReader

/-- A reader before the first line. -/
def initial : DiffReader := ⟨[], none, [], none, none, [], 0, []⟩

/-- The reader with its open hunk closed. -/
def close (r : DiffReader) : Except ParseError DiffReader :=
  match r.current with
  | none => .ok r
  | some h =>
    match h.finish with
    | .ok (h, warnings) =>
      .ok { r with
        complete := r.complete ++ [h], current := none, warnings := r.warnings ++ warnings }
    | .error fault => .error ⟨fault, some r.complete.length⟩

/-- The reader with a hunk open, from its header. -/
def openHunk (r : DiffReader) (line : Text) : Except ParseError DiffReader :=
  match Hunk.ofHeader? r.complete.length line with
  | some h => .ok { r with current := some h }
  | none => .error ⟨.malformedHeader line, some r.complete.length⟩

/-- The reader after the names of two files. The new file counts as the one to change, or the old
one if there is no new one. -/
def nameFiles (r : DiffReader) (old new : Text) : DiffReader :=
  let oldPath := DiffLine.path? old
  let newPath := DiffLine.path? new
  -- A path may be empty once its first part is dropped, and then counts as no name.
  let target :=
    match newPath with
    | some (c :: t) => c :: t
    | _ => oldPath.getD []
  let isNew := !target.isEmpty && !r.targets.contains target
  { r with
    oldPath := oldPath, newPath := newPath
    targets := if isNew then r.targets ++ [target] else r.targets }

/-- The reader after a line of its open hunk, given what follows. -/
def addLine (r : DiffReader) (h : Hunk) (line : Text) (rest : List DiffLine) :
    Except ParseError DiffReader :=
  match line with
  | [] => .ok { r with current := some (h.push .context []) }
  | ' ' :: text => .ok { r with current := some (h.push .context text) }
  | '+' :: text => .ok { r with current := some (h.push .add text) }
  | '-' :: text => .ok { r with current := some (h.push .remove text) }
  | '\\' :: _ => .ok { r with current := some h.markMissing }
  | line =>
    -- The line has no mark: it lost its space, or it no longer belongs to the hunk.
    if h.wants rest then
      .ok { r with
        current := some (h.push .context line)
        trace := r.trace ++
          [⟨.debug, s!"Hunk {h.index + 1}: unprefixed line {r.count + 1} read as context"⟩] }
    else r.close

/-- The reader after what stands next, given what follows. -/
def step (r : DiffReader) (next : DiffLine) (rest : List DiffLine) :
    Except ParseError DiffReader :=
  match next with
  | .hunk line => r.close.bind fun r => r.openHunk line
  | .pair => r.close
  | .files old new => r.close.map fun r => r.nameFiles old new
  | .body line =>
    match r.current with
    | none => .ok r
    | some h => r.addLine h line rest

/-- The reader after all that follows, and the fault that stopped it if there is one. -/
def run (r : DiffReader) : List DiffLine → DiffReader × Option ParseError
  | [] =>
    match r.close with
    | .ok r => (r, if r.complete.isEmpty then some ⟨.noHunks, none⟩ else none)
    | .error e => (r, some e)
  | next :: rest =>
    match r.step next rest with
    | .ok s => run { s with count := s.count + next.height } rest
    | .error e => (r, some e)

/-- What a reader that has read everything gives. -/
def parsed (r : DiffReader) : ParsedDiff :=
  let several := if r.targets.length > 1 then [Warning.severalFiles r.targets] else []
  ⟨r.complete, r.warnings ++ several, r.oldPath, r.newPath⟩

end DiffReader

/-- The hunks of an edit text. -/
def ParsedDiff.read (edit : Text) : Traced (Except ParseError ParsedDiff) := do
  let (r, fault) := DiffReader.initial.run (DiffLine.ofEdit edit)
  Traced.tell r.trace
  match fault with
  | some e => pure (.error e)
  | none => do
    let diff := r.parsed
    Traced.say .debug
      s!"Parsed {diff.hunks.length} hunk(s) with {diff.warnings.length} warning(s)"
    pure (.ok diff)

end Emend
