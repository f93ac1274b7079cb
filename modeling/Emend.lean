import Emend.Apply.Batch
import Emend.Apply.Blocks
import Emend.Apply.Edit
import Emend.Apply.Hunks
import Emend.Apply.Outcome
import Emend.Block.Basic
import Emend.Block.Marker
import Emend.Block.Reader
import Emend.Edit.Dialect
import Emend.Edit.ParseError
import Emend.Edit.Warning
import Emend.Edit.Wrapping
import Emend.Hunk.Anchor
import Emend.Hunk.Basic
import Emend.Hunk.DiffLine
import Emend.Hunk.Header
import Emend.Hunk.Reader
import Emend.Hunk.Rebuild
import Emend.Log
import Emend.Match.Ambiguity
import Emend.Match.Candidate
import Emend.Match.Exact
import Emend.Match.Fuzzy
import Emend.Match.Search
import Emend.Match.Strategy
import Emend.Match.Window
import Emend.Match.Words
import Emend.Number.Binary64
import Emend.Number.Decimal
import Emend.Number.Numeral
import Emend.Proofs.Accounting
import Emend.Proofs.AddedLines
import Emend.Proofs.AnchorFit
import Emend.Proofs.AnchorLevels
import Emend.Proofs.AnchorOptimum
import Emend.Proofs.BareHunks
import Emend.Proofs.BatchRun
import Emend.Proofs.BatchSplit
import Emend.Proofs.BestMatch
import Emend.Proofs.BlockGrammar
import Emend.Proofs.BlockRoundTrip
import Emend.Proofs.CandidatePlaces
import Emend.Proofs.Characters
import Emend.Proofs.Choice
import Emend.Proofs.CoveredWords
import Emend.Proofs.DeclaredPlace
import Emend.Proofs.DiffOrigin
import Emend.Proofs.DiffReading
import Emend.Proofs.DiffSections
import Emend.Proofs.DiffSteps
import Emend.Proofs.DiffWeight
import Emend.Proofs.Document
import Emend.Proofs.DocumentEndings
import Emend.Proofs.Drift
import Emend.Proofs.EditEndings
import Emend.Proofs.EndingStyles
import Emend.Proofs.Fences
import Emend.Proofs.FittedWords
import Emend.Proofs.FullConfidence
import Emend.Proofs.FuzzyScan
import Emend.Proofs.FuzzyThreshold
import Emend.Proofs.HunkReading
import Emend.Proofs.HunkText
import Emend.Proofs.Indentation
import Emend.Proofs.LineAfter
import Emend.Proofs.LineSplice
import Emend.Proofs.Lines
import Emend.Proofs.Listening
import Emend.Proofs.LooserOptions
import Emend.Proofs.MarkerLines
import Emend.Proofs.MiddleOut
import Emend.Proofs.Occurrences
import Emend.Proofs.OpenHunk
import Emend.Proofs.ReadAlike
import Emend.Proofs.ReadWords
import Emend.Proofs.Reindentation
import Emend.Proofs.RestOfLine
import Emend.Proofs.Rounding
import Emend.Proofs.Rows
import Emend.Proofs.SharedIndent
import Emend.Proofs.ShiftedBlocks
import Emend.Proofs.ShiftedWindows
import Emend.Proofs.SimilarityBounds
import Emend.Proofs.SourceToTarget
import Emend.Proofs.StrictReport
import Emend.Proofs.StrictRun
import Emend.Proofs.Surgery
import Emend.Proofs.Telemetry
import Emend.Proofs.Thoughts
import Emend.Proofs.UnchangedWords
import Emend.Proofs.UnmarkedLines
import Emend.Proofs.Unwrapping
import Emend.Proofs.WindowOffsets
import Emend.Proofs.WindowOrder
import Emend.Proofs.WordMatches
import Emend.Proofs.WordTies
import Emend.Proofs.Words
import Emend.Proofs.WrittenBlocks
import Emend.Proofs.WrittenLines
import Emend.Setting.Options
import Emend.Setting.Value
import Emend.Similarity
import Emend.Text.Basic
import Emend.Text.Blank
import Emend.Text.Digit
import Emend.Text.Excerpt
import Emend.Text.Indent
import Emend.Text.Line
import Emend.Text.LineEnding
import Emend.Text.Printable
import Emend.Text.Quoted
import Emend.Text.Word
import Emend.Proofs.ReadAlike
