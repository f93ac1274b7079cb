import Emend.Edit.Warning
import Emend.Hunk.Basic
import Emend.Log
import Emend.Number.Binary64
import Emend.Number.Decimal
import Emend.Text.Blank

/-!
# Anchoring a hunk

The old side of a hunk is looked for in the lines of a document, level by level: the same lines,
then lines that are the same up to outer spaces, then such lines of which up to so many context
lines differ altogether. Each level goes over the places from the expected one outwards
(`middleOut`), so that the nearest place wins; another one at the same distance is reported as a
tie. One case goes before all levels: where the lines at the expected place differ only in outer
spaces, that place is taken, even if the same lines stand elsewhere.
-/

namespace Emend

/-- The places around `start`, which is one of them, and up to `last`, by their distance from it,
of two equally far ones the earlier first. -/
def middleOut (start last : Nat) : List Nat :=
  start :: (List.range (max start (last - start))).flatMap fun i =>
    (if i < start then [start - (i + 1)] else []) ++
      (if start + (i + 1) ≤ last then [start + (i + 1)] else [])

/-- The place up to `last` that is nearest to `expected`. -/
def clampPlace (expected : Int) (last : Nat) : Nat := min expected.toNat last

namespace AnchorLevel

/-- Whether a line of the document fits a line of the hunk at a level. -/
def fits (level : AnchorLevel) (line wanted : Text) : Bool :=
  match level with
  | .declaredPosition | .exact => line == wanted
  | .loose | .fuzz _ => line == wanted || line.strip == wanted.strip

/-- How many context lines may differ at a level. -/
def allowance : AnchorLevel → Nat
  | .fuzz lines => lines
  | _ => 0

/-- Whether a level lets lines differ from those of the document. -/
def isLoose : AnchorLevel → Bool
  | .declaredPosition | .exact => false
  | .loose | .fuzz _ => true

/-- The levels at which a hunk is looked for, in order. -/
def levels (maxFuzz contextCount : Nat) : List AnchorLevel :=
  .exact :: .loose :: (List.range (min maxFuzz contextCount)).map fun i => .fuzz (i + 1)

end AnchorLevel

/-- How many context lines of an old side do not fit the lines, which they stand beside in order.
There is no answer if a removed line does not fit or if there are too few lines. -/
def mismatches? (fits : Text → Text → Bool) : List HunkLine → List Text → Option Nat
  | [], _ => some 0
  | _ :: _, [] => none
  | l :: side, t :: lines =>
    if fits t l.text then mismatches? fits side lines
    else if l.kind = .remove then none
    else (mismatches? fits side lines).map (· + 1)

/-- The place of a hunk in the lines of a document. -/
structure Anchor where
  /-- The line that the hunk starts at, counted from zero. -/
  position : Nat
  /-- How well the hunk fits there. -/
  level : AnchorLevel
  /-- How sure the place is: a number of the binary64 format. -/
  confidence : Rat
  /-- The tie that the place won, if there was one. -/
  ambiguity : Option Ambiguity
  deriving DecidableEq

namespace Anchor

/-- How sure a place is at which `bad` of `size` lines differ. -/
def confidenceOf (bad size : Nat) : Rat := nearest (1 - nearest (bad / size))

/-- How many context lines differ if the old side is put at a place, if that is allowed at the
level. At least one line must fit. -/
def misfits? (lines : List Text) (side : List HunkLine) (level : AnchorLevel) (place : Nat) :
    Option Nat :=
  (mismatches? level.fits side (lines.drop place)).filter fun bad =>
    bad ≤ level.allowance && bad < side.length

/-- The places that are allowed at a level, from the expected one outwards, with the count of
context lines that differ. -/
def places (lines : List Text) (side : List HunkLine) (expected : Int) (level : AnchorLevel) :
    List (Nat × Nat) :=
  let last := lines.length - side.length
  (middleOut (clampPlace expected last) last).filterMap fun place =>
    (misfits? lines side level place).map (place, ·)

/-- How far a place is from the expected one. -/
def distance (expected : Int) (place : Nat) : Nat := ((place : Int) - expected).natAbs

/-- The anchor at the nearest of the places that are allowed at a level. -/
def nearestAt (lines : List Text) (side : List HunkLine) (expected : Int) (level : AnchorLevel) :
    Traced (Option Anchor) :=
  match places lines side expected level with
  | [] => pure none
  | (place, bad) :: others =>
    let confidence := confidenceOf bad side.length
    -- The places come by distance, so that only the next one can be as near as the first.
    let isTied := match others with
      | (other, _) :: _ => decide (distance expected other = distance expected place)
      | [] => false
    if isTied then do
      let tie : Ambiguity := ⟨2, place, .anchor level, place + 1⟩
      Traced.say .debug s!"  {tie.message}"
      pure (some ⟨place, level, confidence, some tie⟩)
    else do
      Traced.say .debug
        s!"  anchored at line {place + 1} via {level.name} (expected {expected + 1})"
      let last := lines.length - side.length
      let declared := decide (level = .exact) && decide (place = clampPlace expected last)
      pure (some ⟨place, if declared then .declaredPosition else level, confidence, none⟩)

/-- The anchor at the first level that has one. -/
def firstLevel (lines : List Text) (side : List HunkLine) (expected : Int) :
    List AnchorLevel → Traced (Option Anchor)
  | [] => pure none
  | level :: levels => do
    match ← nearestAt lines side expected level with
    | some a => pure (some a)
    | none => firstLevel lines side expected levels

/-- The place of a hunk in the lines of a document, which it is expected to stand at the expected
line of. A hunk without an old side stands where it is expected. -/
def find (lines : List Text) (hunk : Hunk) (expected : Int) (maxFuzz : Nat) :
    Traced (Option Anchor) :=
  let side := hunk.oldSide
  if side.isEmpty then
    pure (some ⟨clampPlace expected lines.length, .declaredPosition, 1, none⟩)
  else if lines.length < side.length then pure none
  else
    let declared := clampPlace expected (lines.length - side.length)
    let region := lines.drop declared
    -- Other outer spaces at the declared line are likelier than the same lines elsewhere.
    if mismatches? AnchorLevel.exact.fits side region ≠ some 0 ∧
        mismatches? AnchorLevel.loose.fits side region = some 0 then do
      Traced.say .debug s!"  anchored at declared line {declared + 1} via loose"
      pure (some ⟨declared, .loose, 1, none⟩)
    else firstLevel lines side expected (AnchorLevel.levels maxFuzz hunk.contextCount)

end Anchor

end Emend
