import Emend.Log
import Emend.Match.Ambiguity
import Emend.Match.Exact
import Emend.Match.Words
import Emend.Match.Fuzzy

/-!
# Searching a document

The strategies are tried in the order they are listed in, and the first that finds a candidate
decides. Of its candidates the one with the highest confidence is chosen, and of several such ones
the earliest, in which case the tie is reported. A blank search text matches only a blank document,
and all of it. `findBest` says whether there is a match; `locate` makes its absence an error.
-/

namespace Emend

/-- A chosen candidate, and the tie it won if there was one. -/
structure Match where
  /-- The candidate that was chosen. -/
  candidate : Candidate
  /-- The tie between it and other candidates. -/
  ambiguity : Option Ambiguity
  deriving DecidableEq

/-- A search text that no strategy found, and the strategies that were tried. -/
structure NotFound where
  /-- The strategies that were tried, in order. -/
  tried : List Strategy
  deriving DecidableEq, Repr

/-- What is said about a search text that was not found. -/
def NotFound.message (e : NotFound) : String :=
  let names := ", ".intercalate (e.tried.map Strategy.name)
  s!"search text not found (tried: {names})"

namespace Match

/-- The least similarity that the fuzzy strategy accepts where nothing else is said. -/
def defaultThreshold : Binary64 := .ofRat (4 / 5)

/-- The candidates that a strategy finds in a document. -/
def candidates (strategy : Strategy) (threshold : Binary64) (content search : Text) :
    List Candidate :=
  match strategy with
  | .exact => exact content search
  | .lineTrimmed => lineTrimmed content search
  | .whitespaceNormalized => whitespaceNormalized content search
  | .indentationAgnostic => indentationAgnostic content search
  | .fuzzy => fuzzy threshold content search

/-- The better of two candidates: the one with the higher confidence, of equal ones the earlier. -/
def better (a b : Candidate) : Candidate :=
  if a.confidence < b.confidence then b
  else if a.confidence = b.confidence ∧ b.position < a.position then b
  else a

/-- The line that a place of a document is on, counted from one. -/
def lineAt (content : Text) (position : Nat) : Nat := (content.take position).count '\n' + 1

/-- The match that a list of candidates makes. -/
def choose? (content : Text) (strategy : Strategy) : List Candidate → Option Match
  | [] => none
  | c :: cs =>
    let chosen := cs.foldl better c
    let ties := (c :: cs).countP fun d => d.confidence = chosen.confidence
    some ⟨chosen,
      if ties > 1 then
        some ⟨ties, chosen.position, .search strategy, lineAt content chosen.position⟩
      else none⟩

/-- The record of what a strategy found, with the first ten candidates. -/
def listing (strategy : Strategy) (found : List Candidate) : String :=
  let shown := ", ".intercalate ((found.take 10).map fun c =>
    s!"{c.position}:{String.ofList (fixed 2 c.confidence)}")
  s!"Strategy {strategy.name}: {found.length} candidate(s) [{shown}]"

/-- The record of what a strategy found, which is only put together for who listens to it. -/
def sayFound (strategy : Strategy) (found : List Candidate) : Traced Unit := do
  if ← Traced.listens .debug then Traced.say .debug (listing strategy found) else pure ()

/-- The records of a choice. -/
def sayChoice (m : Match) : Traced Unit := do
  match m.ambiguity with
  | some a => Traced.say .debug s!"  {a.message}"
  | none => pure ()
  let confidence := String.ofList (fixed 3 m.candidate.confidence)
  Traced.say .debug s!"  chose offset {m.candidate.position} (confidence={confidence})"

/-- The match of the first strategy that finds a candidate. -/
def firstMatch (threshold : Binary64) (content search : Text) :
    List Strategy → Traced (Option Match)
  | [] => pure none
  | s :: ss => do
    let found := candidates s threshold content search
    sayFound s found
    match choose? content s found with
    | some m => do
      sayChoice m
      pure (some m)
    | none => firstMatch threshold content search ss

/-- The match of a blank search text. -/
def blankMatch (content : Text) : Traced (Option Match) :=
  if content.isBlank then pure (some ⟨⟨0, content.length, .exact, 1⟩, none⟩)
  else do
    Traced.say .debug "Blank search text against non-blank content: no match"
    pure none

/-- The best match of a search text in a document, whose line endings are line feeds. -/
def findBest (strategies : List Strategy) (threshold : Binary64) (content search : Text) :
    Traced (Option Match) :=
  if search.isBlank then blankMatch content
  else firstMatch threshold content search strategies

/-- The best match, or that there is none. -/
def locate (strategies : List Strategy) (threshold : Binary64) (content search : Text) :
    Traced (Except NotFound Match) := do
  match ← findBest strategies threshold content search with
  | some m => pure (.ok m)
  | none => pure (.error ⟨strategies⟩)

/-- The strategies that values name, up to the first value that names none, and that value. -/
def readNames : List Value → List Strategy × Option UnknownStrategy
  | [] => ([], none)
  | v :: vs =>
    match Strategy.ofValue v with
    | .ok s => (s :: (readNames vs).1, (readNames vs).2)
    | .error e => ([], some e)

/-- `findBest` by the names of the strategies. A name is only read when its turn comes, so that an
unknown one is an error only if no strategy before it finds a candidate. -/
def findBestByName (names : List Value) (threshold : Binary64) (content search : Text) :
    Traced (Except UnknownStrategy (Option Match)) := do
  let (strategies, unknown) := readNames names
  let found ← findBest strategies threshold content search
  match found, unknown with
  -- A blank search text is decided before any name is read.
  | none, some e => pure (if search.isBlank then .ok none else .error e)
  | m, _ => pure (.ok m)

end Match

end Emend
