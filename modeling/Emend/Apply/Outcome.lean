import Emend.Edit.Warning
import Emend.Match.Search
import Emend.Text.Excerpt
import Emend.Text.Quoted

/-!
# Outcomes

Applying an edit gives the new document and an account of its units: how many there are, how many
were applied and how many failed, why each of them failed, what was odd, and, if asked for, where
each applied unit was found.
-/

namespace Emend

/-- Why a unit was not applied. -/
inductive Reason where
  /-- No strategy found the search text of a block. -/
  | notFound (error : NotFound)
  /-- A hunk neither adds nor removes a line. -/
  | noChange
  /-- The old side of a hunk, of so many lines, stands nowhere. -/
  | notLocated (size : Nat) (line : Int) (maxFuzz : Nat)
  /-- The unit was applied before a later one failed in strict mode. -/
  | rolledBack (kind : UnitKind) (failed : Int)
  /-- The unit comes after one that failed in strict mode. -/
  | notAttempted (kind : UnitKind) (failed : Int)
  deriving DecidableEq

/-- What is said about why a unit was not applied. -/
def Reason.message : Reason → String
  | .notFound error => error.message
  | .noChange => "hunk has no added or removed lines"
  | .notLocated size line maxFuzz =>
    s!"could not locate {size} context/remove line(s) near line {line} (max fuzz {maxFuzz})"
  | .rolledBack kind failed => s!"rolled back: strict mode aborted at {kind.word} {failed + 1}"
  | .notAttempted kind failed => s!"not attempted: strict mode aborted at {kind.word} {failed + 1}"

/-- A unit that was not applied. -/
structure FailedUnit where
  /-- The number of the unit. -/
  index : Int
  /-- Why it was not applied. -/
  reason : Reason
  /-- The start of what was looked for. -/
  excerpt : Text
  deriving DecidableEq

/-- An error in the account of a call. -/
inductive OutcomeError where
  /-- The search text of a block was not found. -/
  | block (index : Int) (reason : Reason) (search : Text)
  /-- A hunk was not applied. -/
  | hunk (index : Int) (header : Text) (reason : Reason)
  /-- A call in strict mode stopped at a unit and undid those before it. -/
  | aborted (kind : UnitKind) (failed : Int) (rolledBack : Nat)
  deriving DecidableEq

/-- What an error says. -/
def OutcomeError.message : OutcomeError → String
  | .block index reason search =>
    let excerpt := String.ofList (Text.quoted (Text.excerpt Text.messageLimit search))
    s!"{UnitKind.block.label index}: {reason.message}: {excerpt}"
  | .hunk index header reason =>
    s!"{UnitKind.hunk.label index} ({String.ofList header}): {reason.message}"
  | .aborted kind failed rolledBack =>
    s!"Strict mode: aborted at {kind.word} {failed + 1}; {rolledBack} applied {kind.word}(s) " ++
      "rolled back, content left unchanged"

/-- Where an applied unit was found. -/
structure MatchRecord where
  /-- The number of the unit. -/
  index : Int
  /-- How its place was found. -/
  method : Method
  /-- How sure the place is. -/
  confidence : Rat
  /-- The place, in characters. -/
  position : Nat
  deriving DecidableEq

/-- What applying an edit gives. -/
structure Outcome where
  /-- The document afterwards. -/
  content : Text
  /-- How many units the edit has. -/
  total : Nat
  /-- How many units were applied. -/
  applied : Nat
  /-- How many units failed. -/
  failed : Nat
  /-- What went wrong. -/
  errors : List OutcomeError
  /-- What was odd. -/
  warnings : List Warning
  /-- The units that were not applied. -/
  failures : List FailedUnit
  /-- Where the applied units were found, if that was asked for. -/
  records : List MatchRecord
  deriving DecidableEq

/-- Whether no unit failed. -/
def Outcome.ok (o : Outcome) : Bool := o.failed == 0

end Emend
