import Emend.Apply.Outcome
import Emend.Log

/-!
# Batches of units

Blocks and hunks are applied in the same way: one after another, each to what the ones before it
left. A unit is either placed, which gives the next state, or it fails. A lenient run keeps a
failure on its tally and goes on. A strict run stops at the first failure, and its outcome is the
document as it was, with every unit accounted for: those before the failed one as rolled back and
those after it as not attempted, by their numbers.
-/

namespace Emend

/-- A unit that was placed. -/
structure Placement (σ : Type) where
  /-- The state after the unit. -/
  next : σ
  /-- What was odd about it. -/
  warnings : List Warning
  /-- Where it was found. -/
  record : MatchRecord
  /-- What is said about it. -/
  announcement : String

/-- What came of a unit. -/
inductive Attempt (σ : Type) where
  /-- The unit was placed. -/
  | placed (placement : Placement σ)
  /-- The unit failed. -/
  | failed (failure : FailedUnit) (error : OutcomeError)

/-- The account of the units of a run so far. -/
structure Tally where
  /-- How many units were placed. -/
  applied : Nat
  /-- How many units failed. -/
  failed : Nat
  /-- What went wrong. -/
  errors : List OutcomeError
  /-- What was odd. -/
  warnings : List Warning
  /-- The units that failed. -/
  failures : List FailedUnit
  /-- Where the placed units were found. -/
  records : List MatchRecord
  deriving DecidableEq

namespace Tally

/-- A tally of no units, with what was odd before the run. -/
def initial (warnings : List Warning) : Tally := ⟨0, 0, [], warnings, [], []⟩

/-- The tally with one more unit placed; where it was found is kept if `keep` says so. -/
def place {σ : Type} (t : Tally) (keep : Bool) (p : Placement σ) : Tally :=
  ⟨t.applied + 1, t.failed, t.errors, t.warnings ++ p.warnings, t.failures,
    if keep then t.records ++ [p.record] else t.records⟩

/-- The tally with one more unit failed. -/
def fail (t : Tally) (failure : FailedUnit) (error : OutcomeError) : Tally :=
  ⟨t.applied, t.failed + 1, t.errors ++ [error], t.warnings, t.failures ++ [failure], t.records⟩

end Tally

/-- How a run ended. -/
inductive Ending (σ : Type) where
  /-- All units were attempted. -/
  | finished (state : σ) (tally : Tally)
  /-- A unit failed in strict mode, after the units on the tally. -/
  | aborted (failure : FailedUnit) (error : OutcomeError) (tally : Tally)

/-- How the units of an edit are applied. -/
structure Batch (υ σ : Type) where
  /-- What the units are. -/
  kind : UnitKind
  /-- The number of a unit. -/
  index : υ → Int
  /-- What comes of a unit in a state. -/
  attempt : σ → υ → Traced (Attempt σ)
  /-- The document that a state stands for. -/
  render : σ → Text

namespace Batch

variable {υ σ : Type}

/-- A run over units. `strict` stops it at the first failure, and `telemetry` keeps and tells where
units were found. -/
def run (b : Batch υ σ) (strict telemetry : Bool) : σ → Tally → List υ → Traced (Ending σ)
  | s, tally, [] => pure (.finished s tally)
  | s, tally, u :: units => do
    match ← b.attempt s u with
    | .placed p => do
      if telemetry then Traced.say .info p.announcement else pure ()
      run b strict telemetry p.next (tally.place telemetry p) units
    | .failed failure error => do
      Traced.say .warning error.message
      if strict then pure (.aborted failure error tally)
      else run b strict telemetry s (tally.fail failure error) units

/-- What a unit's part in an aborted run is, from its number and that of the unit that failed. -/
def undone (b : Batch υ σ) (failure : FailedUnit) (failed index : Int) : FailedUnit :=
  if index = failed then failure
  else if index < failed then ⟨index, .rolledBack b.kind failed, []⟩
  else ⟨index, .notAttempted b.kind failed, []⟩

/-- The outcome of a run that was aborted: the document as it was. -/
def abortedOutcome (b : Batch υ σ) (content : Text) (units : List υ) (failure : FailedUnit)
    (error : OutcomeError) (tally : Tally) : Outcome :=
  let failed := failure.index
  let numbers := units.map b.index
  ⟨content, units.length, 0, units.length,
    [error, .aborted b.kind failed (numbers.countP (· < failed))],
    tally.warnings, numbers.map (b.undone failure failed), []⟩

/-- The outcome of a run. A document to which nothing was applied stays as it was given. -/
def outcome (b : Batch υ σ) (content : Text) (units : List υ) : Ending σ → Outcome
  | .finished s tally =>
    ⟨if tally.applied = 0 then content else b.render s, units.length, tally.applied, tally.failed,
      tally.errors, tally.warnings, tally.failures, tally.records⟩
  | .aborted failure error tally => b.abortedOutcome content units failure error tally

/-- The outcome of applying the units to a document, whose first state is `start`. -/
def apply (b : Batch υ σ) (strict telemetry : Bool) (content : Text) (start : σ)
    (warnings : List Warning) (units : List υ) : Traced Outcome := do
  let ending ← b.run strict telemetry start (.initial warnings) units
  pure (b.outcome content units ending)

end Batch

end Emend
