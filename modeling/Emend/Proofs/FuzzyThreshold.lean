import Emend.Match.Search
import Emend.Proofs.SimilarityBounds

/-!
# Fuzzy matches and the threshold

The fuzzy strategy keeps all windows whose ratio reaches the threshold: the bounds that are tried
first drop no other ones (`fuzzy_eq_filter`). So a lower threshold adds candidates to those of a
higher one, and each that it adds has a lower confidence than all of those
(`fuzzy_eq_filter_fuzzy`, `Binary64.reachedBy_mono`).
-/

namespace Emend

namespace Binary64

variable {t low high : Binary64} {x y : Rat}

/-- A ratio reaches a finite threshold just if it is not below it. -/
theorem reachedBy_iff (h : t.toRat? = some y) : t.reachedBy x = true ↔ y ≤ x := by
  cases t with
  | finite negative magnitude =>
    cases h
    exact decide_eq_true_iff
  | infinite negative => cases h
  | nan => cases h

/-- What is as high as a ratio that reaches a threshold reaches it too. -/
theorem reachedBy_mono (h : x ≤ y) (hx : t.reachedBy x = true) : t.reachedBy y = true := by
  cases t with
  | finite negative magnitude => exact decide_eq_true ((of_decide_eq_true hx).trans h)
  | infinite negative => exact hx
  | nan => cases hx

end Binary64

namespace Match

/-- A window is similar enough just if its ratio reaches the threshold. -/
theorem similarity?_eq (threshold : Binary64) (wanted : Text) (w : Window) :
    similarity? threshold wanted w =
      if threshold.reachedBy (Similarity.ratio (plainLines w.lines) wanted)
        then some (Similarity.ratio (plainLines w.lines) wanted) else none := by
  unfold similarity?
  dsimp only
  by_cases h : threshold.reachedBy (Similarity.ratio (plainLines w.lines) wanted) = true
  · -- The bounds are not below the ratio.
    have hlength := Binary64.reachedBy_mono (Similarity.ratio_le_lengthBound _ wanted) h
    have hcount := Binary64.reachedBy_mono (Similarity.ratio_le_countBound _ wanted) h
    rw [hlength, hcount]
    rfl
  · rw [if_neg h, ite_self]

/-- The confidence of a candidate is the one that it was made with. -/
@[simp] theorem Window.candidate_confidence (content search : Text) (strategy : Strategy)
    (confidence : Rat) (w : Window) :
    (w.candidate content search strategy confidence).confidence = confidence := rfl

/-- The candidates that all windows make for a search text, whatever their ratio is. -/
def scored (content search : Text) : List Candidate :=
  (windows (Text.bodyLines search).length content).map fun w =>
    w.candidate content search .fuzzy
      (Similarity.ratio (plainLines w.lines) (plainLines (Text.bodyLines search)))

/-- The fuzzy strategy keeps the windows whose ratio reaches the threshold. -/
theorem fuzzy_eq_filter (threshold : Binary64) (content search : Text) :
    fuzzy threshold content search =
      (scored content search).filter fun c => threshold.reachedBy c.confidence := by
  unfold fuzzy scored
  dsimp only
  induction windows (Text.bodyLines search).length content with
  | nil => rfl
  | cons w ws ih =>
    rw [List.filterMap_cons, List.map_cons, List.filter_cons, ih, similarity?_eq,
      Window.candidate_confidence]
    split_ifs <;> rfl

/-- The fuzzy strategy keeps at a threshold what it keeps at a lower one and what reaches the
higher one. -/
theorem fuzzy_eq_filter_fuzzy {low high : Binary64}
    (hlow : ∀ x, high.reachedBy x = true → low.reachedBy x = true) (content search : Text) :
    fuzzy high content search =
      (fuzzy low content search).filter fun c => high.reachedBy c.confidence := by
  rw [fuzzy_eq_filter, fuzzy_eq_filter, List.filter_filter]
  refine List.filter_congr fun c _ => ?_
  cases hc : high.reachedBy c.confidence with
  | false => rfl
  | true => rw [hlow _ hc, Bool.and_self]

end Match

end Emend
