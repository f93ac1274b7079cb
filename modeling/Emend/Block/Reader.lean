import Emend.Block.Basic
import Emend.Edit.ParseError
import Emend.Log
import Emend.Text.LineEnding

/-!
# Reading edit blocks

An edit text is read row by row, each row being a marker line or not. Outside a block only a start
line counts. In a search text a separator leads to the replacement and the other two markers are
faults; in a replacement an end line completes the block, a start line is a fault, and a separator
is a row like any other. A section is the rows between its markers, exactly as they stand.
-/

namespace Emend

namespace EditBlock

/-- The rows of the two sections of a block. -/
structure Rows where
  /-- The rows of the search text. -/
  search : List Text
  /-- The rows of the replacement. -/
  replacement : List Text
  deriving DecidableEq, Repr

/-- Where a reader stands. -/
inductive Place where
  /-- Between blocks. -/
  | outside
  /-- In a search text, after some of its rows. -/
  | inSearch (search : List Text)
  /-- In a replacement, after a search text and some rows. -/
  | inReplacement (search replacement : List Text)
  deriving DecidableEq, Repr

/-- What a reader knows: the complete blocks, where it stands, and how many rows it has read. -/
structure Reader where
  /-- The blocks that are complete. -/
  complete : List Rows
  /-- Where the reader stands. -/
  place : Place
  /-- How many rows were read. -/
  count : Nat
  deriving DecidableEq, Repr

namespace Reader

/-- A reader before the first row. -/
def initial : Reader := ⟨[], .outside, 0⟩

/-- What a reader makes of the next row. -/
def step (r : Reader) (row : Text) : Except Fault Reader :=
  let line := r.count + 1
  match r.place, Marker.ofRow row with
  | .outside, .start => .ok ⟨r.complete, .inSearch [], line⟩
  | .outside, _ => .ok ⟨r.complete, .outside, line⟩
  | .inSearch s, .separator => .ok ⟨r.complete, .inReplacement s [], line⟩
  | .inSearch _, .start => .error (.missingSeparator line)
  | .inSearch _, .finish => .error (.earlyEnd line)
  | .inSearch s, .other => .ok ⟨r.complete, .inSearch (s ++ [row]), line⟩
  | .inReplacement s t, .finish => .ok ⟨r.complete ++ [⟨s, t⟩], .outside, line⟩
  | .inReplacement _ _, .start => .error (.missingEnd line)
  -- A separator inside a replacement is a row like any other.
  | .inReplacement s t, _ => .ok ⟨r.complete, .inReplacement s (t ++ [row]), line⟩

/-- What is wrong if the text ends here; `unit` is left out where the fault belongs to no block. -/
def endFault? (r : Reader) : Option ParseError :=
  match r.place with
  | .inSearch _ => some ⟨.openSearch, some r.complete.length⟩
  | .inReplacement _ _ => some ⟨.openReplacement, some r.complete.length⟩
  | .outside => if r.complete.isEmpty then some ⟨.noBlocks, none⟩ else none

/-- The blocks that a reader completes on the rows, and what is wrong with these if anything is. -/
def run (r : Reader) : List Text → List Rows × Option ParseError
  | [] => (r.complete, r.endFault?)
  | row :: rows =>
    match r.step row with
    | .ok next => run next rows
    | .error fault => (r.complete, some ⟨fault, some r.complete.length⟩)

end Reader

/-- Blocks from the rows of their sections, numbered from zero. -/
def ofRows (blocks : List Rows) : List EditBlock :=
  blocks.mapIdx fun i b => ⟨i, b.search.flatten, b.replacement.flatten⟩

/-- The record of a complete block. -/
def completed (i : Nat) (b : Rows) : Record :=
  ⟨.debug, s!"Parsed block #{i + 1}: {b.search.length} search line(s), " ++
    s!"{b.replacement.length} replace line(s)"⟩

/-- The blocks of an edit text. -/
def read (edit : Text) : Traced (Except ParseError (List EditBlock)) := do
  let (blocks, fault) := Reader.initial.run edit.unifyEndings.rows
  Traced.tell (blocks.mapIdx completed)
  match fault with
  | some e => pure (.error e)
  | none => do
    Traced.say .debug s!"Parsed {blocks.length} SEARCH/REPLACE block(s)"
    pure (.ok (ofRows blocks))

end EditBlock

/-- Something that keeps an edit text from being applied as it is. -/
inductive Objection where
  /-- The text cannot be read. -/
  | unreadable (error : ParseError)
  /-- A block has a blank search text. -/
  | blankSearch (index : Int)
  /-- A block replaces a text by itself. -/
  | noChange (index : Int)
  deriving DecidableEq, Repr

/-- What is said about an objection. -/
def Objection.message : Objection → String
  | .unreadable error => error.message
  | .blankSearch index => s!"block {index + 1}: empty SEARCH section"
  | .noChange index => s!"block {index + 1}: SEARCH and REPLACE sections are identical"

namespace EditBlock

/-- What there is to object to in a block. -/
def objection? (b : EditBlock) : Option Objection :=
  if b.search.isBlank then some (.blankSearch b.index)
  else if b.search = b.replacement then some (.noChange b.index)
  else none

/-- What there is to object to in an edit text of blocks. -/
def objections (edit : Text) : List Objection :=
  match (read edit).value with
  | .ok blocks => blocks.filterMap objection?
  | .error e => [.unreadable e]

end EditBlock

end Emend
