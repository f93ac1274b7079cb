import Emend.Hunk.Basic
import Emend.Text.Indent

/-!
# Rebuilding a region

A hunk is applied to the region it was found at by going through its lines: context stays as the
document has it, removed lines are dropped, added lines are put in. Where the region was found by
loose comparison, added lines are moved from the indentation of the hunk's first visible old line
to that of the region's first visible line.
-/

namespace Emend.Hunk

/-- The region that a hunk leaves, from the lines of the hunk and the region they were found at. -/
def rebuildWith (insert : Text → Text) : List HunkLine → List Text → List Text
  | [], _ => []
  | ⟨.add, text⟩ :: ls, region => insert text :: rebuildWith insert ls region
  | ⟨.remove, _⟩ :: ls, region => rebuildWith insert ls region.tail
  | ⟨.context, _⟩ :: ls, line :: region => line :: rebuildWith insert ls region
  | ⟨.context, _⟩ :: ls, [] => rebuildWith insert ls []

/-- An added line as it is put into a region. -/
def inserted (hunk : Hunk) (region : List Text) (loose : Bool) (text : Text) : Text :=
  let source := Text.firstVisible hunk.oldLines
  if loose && !source.isEmpty then
    Text.moveIndent (Text.indent source) (Text.indent (Text.firstVisible region)) text
  else text

/-- The region that a hunk leaves. -/
def rebuild (hunk : Hunk) (region : List Text) (loose : Bool) : List Text :=
  rebuildWith (hunk.inserted region loose) hunk.lines region

end Emend.Hunk
