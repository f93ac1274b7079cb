import Emend.Match.Strategy

/-!
# Candidates

A candidate is a stretch of a document at which a strategy found a search text, with a confidence
from zero to one that only the fuzzy strategy makes less than one.
-/

namespace Emend

/-- A stretch of a document at which a search text was found. -/
structure Candidate where
  /-- Where the stretch starts. -/
  position : Nat
  /-- How many characters it has. -/
  length : Nat
  /-- The strategy that found it. -/
  strategy : Strategy
  /-- How sure the strategy is of it: a number of the binary64 format. -/
  confidence : Rat
  deriving DecidableEq

/-- Where the stretch of a candidate stops. -/
def Candidate.stop (c : Candidate) : Nat := c.position + c.length

end Emend
