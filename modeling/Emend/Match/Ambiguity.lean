import Emend.Match.Strategy

/-!
# Ways to find a place, and ties between places

The place of an edit is found either by a matching strategy, for a search text, or at a level of
the anchor search, for the old lines of a hunk. When several places are equally good the earliest
is used and the tie is reported.
-/

namespace Emend

/-- How well the old lines of a hunk fit the place where they were found. -/
inductive AnchorLevel where
  /-- The hunk stands at the place it declares. -/
  | declaredPosition
  /-- All lines are the same. -/
  | exact
  /-- All lines are the same up to the spaces around them. -/
  | loose
  /-- That many context lines differ by more than the spaces around them. -/
  | fuzz (lines : Nat)
  deriving DecidableEq, Repr

/-- The name of a level. -/
def AnchorLevel.name : AnchorLevel → String
  | .declaredPosition => "declared_position"
  | .exact => "exact"
  | .loose => "loose"
  | .fuzz lines => s!"fuzz_{lines}"

/-- How the place of an edit was found. -/
inductive Method where
  /-- By a strategy, for a search text. -/
  | search (strategy : Strategy)
  /-- At a level, for the old lines of a hunk. -/
  | anchor (level : AnchorLevel)
  deriving DecidableEq, Repr

/-- The name of a method. -/
def Method.name : Method → String
  | .search strategy => strategy.name
  | .anchor level => level.name

/-- A tie between places, of which the earliest was used. -/
structure Ambiguity where
  /-- How many places are equally good. -/
  count : Nat
  /-- The place that was used. -/
  position : Nat
  /-- How the places were found. -/
  method : Method
  /-- The line of the place that was used, counted from one. -/
  line : Nat
  deriving DecidableEq, Repr

/-- What is said about a tie. -/
def Ambiguity.message (a : Ambiguity) : String :=
  s!"{a.count} equally good matches ({a.method.name}); using the earliest at line {a.line}"

end Emend
