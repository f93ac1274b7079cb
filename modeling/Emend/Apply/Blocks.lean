import Emend.Apply.Batch
import Emend.Block.Reader
import Emend.Setting.Options

/-!
# Applying edit blocks

Each block is looked for in the document that the blocks before it left, and its replacement takes
the place of what was found. It is fitted to that place first (`fitted`): line breaks at its edges
that the place does not have are left out, and where the place was found by lines, or by words from
the start of a line on, the replacement moves from the indentation of the search text to that of the
place. All texts have line feeds here; the document gets its own line endings back at the end.
-/

namespace Emend

namespace EditBlock

/-- A replacement without the line breaks at its edges that the search text has and the place has
not: the last one if the place is in the middle of a line or at the end of the document, the first
one if it is at the start of the document. -/
def trimEdges (replacement search place : Text) : Text :=
  let r :=
    if search.endsLine && !place.endsLine && replacement.endsLine then replacement.dropLast
    else replacement
  if search.head? == some '\n' && place.head? != some '\n' && r.head? == some '\n' then r.tail
  else r

/-- Whether a replacement is moved to the indentation of its place. -/
def isMoved (strategy : Strategy) (atLineStart : Bool) : Bool :=
  strategy.isLineBased || (strategy == .whitespaceNormalized && atLineStart)

/-- The lines of a text moved from the indentation of the first visible line of `source` to that of
`target`. -/
def moved (t source target : Text) : Text :=
  let ls := Text.reindent t.bodyLines (Text.firstVisible source.lines)
    (Text.firstVisible target.lines)
  if t.endsLine then Text.unlines ls ++ ['\n'] else Text.unlines ls

/-- A replacement as it is put into the place where the search text was found. -/
def fitted (replacement search place : Text) (strategy : Strategy) (atLineStart : Bool) : Text :=
  let r := trimEdges replacement search place
  if isMoved strategy atLineStart && !r.isEmpty then moved r search place else r

/-- Whether a place starts a line: at the start of the document, after a line feed, or with one. -/
def startsLine (content : Text) (position : Nat) (place : Text) : Bool :=
  position == 0 || Text.endsLine (content.take position) || place.head? == some '\n'

/-- The document with a replacement in the place of a candidate for the search text. -/
def splice (content search replacement : Text) (c : Candidate) : Text :=
  let front := content.take c.position
  let place := (content.take c.stop).drop c.position
  let inserted :=
    fitted replacement search place c.strategy (startsLine content c.position place)
  front ++ inserted ++ content.drop c.stop

/-- What is said about a block that was applied. -/
def announcement (b : EditBlock) (c : Candidate) : String :=
  let confidence := String.ofList (fixed 3 c.confidence)
  s!"{UnitKind.block.label b.index} applied via {c.strategy.name} (confidence={confidence}) " ++
    s!"at offset {c.position}"

/-- The block as it was placed at a match. -/
def placement (b : EditBlock) (content search replacement : Text) (m : Match) : Placement Text :=
  ⟨splice content search replacement m.candidate,
    m.ambiguity.toList.map (.ambiguous .block b.index ·),
    ⟨b.index, .search m.candidate.strategy, m.candidate.confidence, m.candidate.position⟩,
    b.announcement m.candidate⟩

/-- What comes of a block in a document. -/
def attempt (options : Options) (content : Text) (b : EditBlock) : Traced (Attempt Text) := do
  let search := b.search.unifyEndings
  let replacement := b.replacement.unifyEndings
  match ← Match.locate options.strategies options.threshold content search with
  | .ok m => pure (.placed (b.placement content search replacement m))
  | .error e =>
    pure (.failed ⟨b.index, .notFound e, search.excerpt Text.reportLimit⟩
      (.block b.index (.notFound e) search))

/-- How blocks are applied to a document whose line endings are `ending`. -/
def batch (options : Options) (ending : LineEnding) : Batch EditBlock Text :=
  ⟨.block, EditBlock.index, attempt options, fun content => content.writeEndings ending.text⟩

/-- The outcome of applying blocks to a document. -/
def applyAll (options : Options) (content : Text) (blocks : List EditBlock) : Traced Outcome :=
  (batch options content.dominantEnding).apply options.strict options.telemetry content
    content.unifyEndings [] blocks

end EditBlock

end Emend
