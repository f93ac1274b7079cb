import Emend.Match.Candidate

/-!
# Exact matches

The exact strategy finds every place at which the document goes on with the search text, also when
two such places overlap.
-/

namespace Emend.Match

/-- The places at which a text goes on with the word, counted from `start`. -/
def placesFrom (word : Text) (start : Nat) : Text → List Nat
  | [] => if word.isEmpty then [start] else []
  | c :: t =>
    if Text.startsWith word (c :: t) then start :: placesFrom word (start + 1) t
    else placesFrom word (start + 1) t

/-- Every occurrence of the search text in the document. -/
def exact (content search : Text) : List Candidate :=
  (placesFrom search 0 content).map fun place => ⟨place, search.length, .exact, 1⟩

end Emend.Match
