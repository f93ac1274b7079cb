import Emend.Proofs.WindowOffsets
import Mathlib.Algebra.BigOperators.Group.Finset.Basic

/-!
# The fuzzy strategy without its bounds

The fuzzy strategy tries two bounds before it computes the ratio of a window, and what it keeps is
what it would keep without them: a candidate of each window whose ratio reaches the threshold
(`fuzzy_eq_scan`). The reason is an order of counts. The matched characters are among those that the
two texts share as multisets, which are no more than the shorter text has. So no scan that accepts a
number with each smaller one is changed by trying the larger counts first (`isKept_eq`), and it does
not matter whether the quotients of these counts are compared themselves or rounded.
-/

namespace Emend

namespace Similarity

variable {a b : Text}

/-! ## Counts -/

/-- No character stands twice where duplicates are erased. -/
theorem nodup_eraseDups (t : Text) : t.eraseDups.Nodup := by
  cases t with
  | nil => exact List.nodup_nil
  | cons c t =>
    have hshorter : (t.filter fun d => !d == c).length ≤ t.length := List.length_filter_le _ t
    rw [List.eraseDups_cons, List.nodup_cons, List.mem_eraseDups]
    exact ⟨by simp, nodup_eraseDups _⟩
termination_by t.length

/-- The characters that two texts share are those that they have in common as multisets. -/
theorem sharedCount_eq_card_inter (a b : Text) :
    sharedCount a b = ((a : Multiset Char) ∩ (b : Multiset Char)).card := by
  have hmem : ∀ c ∈ (a : Multiset Char) ∩ (b : Multiset Char), c ∈ a.toFinset := fun c hc =>
    List.mem_toFinset.mpr (Multiset.mem_coe.mp (Multiset.mem_inter.mp hc).1)
  have hdups : a.eraseDups.toFinset = a.toFinset := by
    ext c
    rw [List.mem_toFinset, List.mem_toFinset, List.mem_eraseDups]
  calc sharedCount a b
      = (a.eraseDups.map fun c => min (a.count c) (b.count c)).sum := by
        rw [sharedCount, List.sum_eq_foldr, List.foldr_map]
    _ = ∑ c ∈ a.eraseDups.toFinset, min (a.count c) (b.count c) :=
        (List.sum_toFinset _ (nodup_eraseDups a)).symm
    _ = ∑ c ∈ a.toFinset, ((a : Multiset Char) ∩ (b : Multiset Char)).count c := by
        rw [hdups]
        exact Finset.sum_congr rfl fun c _ => by
          rw [Multiset.count_inter, Multiset.coe_count, Multiset.coe_count]
    _ = ((a : Multiset Char) ∩ (b : Multiset Char)).card := Multiset.sum_count_eq_card hmem

/-- Two texts share no more characters than the shorter one has. -/
theorem sharedCount_le_length (a b : Text) : sharedCount a b ≤ min a.length b.length := by
  rw [sharedCount_eq_card_inter]
  exact le_min (Multiset.card_le_card Multiset.inter_le_left)
    (Multiset.card_le_card Multiset.inter_le_right)

/-! ## Quotients -/

/-- The ratio that `n` matched characters make of two texts of `total` characters together, before
it is rounded. -/
def quotient (n total : Nat) : Rat := if total = 0 then 1 else 2 * n / total

/-- A ratio is the quotient, rounded. -/
theorem score_eq_nearest (n total : Nat) : score n total = nearest (quotient n total) := by
  unfold score quotient
  split_ifs
  · exact nearest_one.symm
  · rfl

/-- More matched characters make a quotient that is as high or higher. -/
theorem quotient_mono {n n' : Nat} (h : n ≤ n') (total : Nat) :
    quotient n total ≤ quotient n' total := by
  unfold quotient
  split_ifs
  · exact le_rfl
  · have htwice : (2 * n : Rat) ≤ 2 * n' :=
      mul_le_mul_of_nonneg_left (Nat.cast_le.mpr h) zero_le_two
    exact div_le_div_of_nonneg_right htwice (Nat.cast_nonneg total)

/-- Whether two texts pass a test on the quotients of the two quick counts and on that of the
matched characters. -/
def isKept (accepts : Rat → Bool) (a b : Text) : Bool :=
  accepts (quotient (min a.length b.length) (a.length + b.length)) &&
    accepts (quotient (sharedCount a b) (a.length + b.length)) &&
    accepts (quotient (matched a b) (a.length + b.length))

/-- The last test decides alone, if what is higher than something that is accepted is accepted. -/
theorem isKept_eq {accepts : Rat → Bool}
    (hup : ∀ x y, x ≤ y → accepts x = true → accepts y = true) (a b : Text) :
    isKept accepts a b = accepts (quotient (matched a b) (a.length + b.length)) := by
  unfold isKept
  cases h : accepts (quotient (matched a b) (a.length + b.length)) with
  | false => rw [Bool.and_false]
  | true =>
    have hshared := hup _ _ (quotient_mono (matched_le_sharedCount a b) _) h
    have hlength := hup _ _ (quotient_mono (sharedCount_le_length a b) _) hshared
    rw [hshared, hlength]
    rfl

end Similarity

namespace Match

/-! ## The scan -/

open Similarity in
/-- The bounds and the ratio of a window are tried as its quotients are, rounded. -/
theorem isSome_similarity? (threshold : Binary64) (wanted : Text) (w : Window) :
    (similarity? threshold wanted w).isSome =
      isKept (fun x => threshold.reachedBy (nearest x)) (plainLines w.lines) wanted := by
  unfold similarity? isKept lengthBound countBound ratio
  dsimp only
  rw [score_eq_nearest, score_eq_nearest, score_eq_nearest]
  split_ifs with hbounds hratio
  · rw [hbounds, hratio]
    rfl
  · rw [hbounds, Bool.eq_false_iff.mpr hratio]
    rfl
  · rw [Bool.eq_false_iff.mpr hbounds]
    rfl

/-- The candidate that the window at a line makes for a search text, whatever its ratio is. -/
def scoredAt (content search : Text) (i : Nat) : Candidate :=
  let w := windowAt search.bodyLines.length content.bodyLines i
  w.candidate content search .fuzzy
    (Similarity.ratio (plainLines w.lines) (plainLines search.bodyLines))

/-- All windows are those at the lines of the document. -/
theorem scored_eq_map_range (content search : Text) :
    scored content search =
      (List.range (content.bodyLines.length + 1 - search.bodyLines.length)).map
        (scoredAt content search) := by
  have hsize : 0 < search.bodyLines.length := List.length_pos_iff.mpr search.bodyLines_ne_nil
  rw [scored, windows_eq_map_range hsize, List.map_map]
  rfl

/-- The candidates of the fuzzy strategy stand one after another. -/
theorem pairwise_fuzzy (threshold : Binary64) (content search : Text) :
    (fuzzy threshold content search).Pairwise (·.position < ·.position) := by
  show (candidates .fuzzy threshold content search).Pairwise _
  exact pairwise_of_isLineBased rfl threshold content search

open Similarity in
/-- **The bounds drop nothing.** The fuzzy strategy finds what the scan without them finds, which
makes a candidate of the window at each line, scores it, and keeps it if its ratio reaches the
threshold. The candidates stand one after another. The test of a window goes by the rounded
quotients of its counts, and with the quotients themselves the bounds drop nothing either, as the
matched characters are no more than those that the two texts share as multisets, and these no more
than the shorter text has. -/
theorem fuzzy_eq_scan (threshold : Binary64) (content search : Text) :
    fuzzy threshold content search =
      ((List.range (content.bodyLines.length + 1 - search.bodyLines.length)).map
        (scoredAt content search)).filter (fun c => threshold.reachedBy c.confidence) ∧
    (fuzzy threshold content search).Pairwise (·.position < ·.position) ∧
    (∀ w, (similarity? threshold (plainLines search.bodyLines) w).isSome =
      isKept (fun x => threshold.reachedBy (nearest x)) (plainLines w.lines)
        (plainLines search.bodyLines)) ∧
    (∀ (least : Rat) (a b : Text),
      isKept (fun x => decide (least ≤ x)) a b =
        decide (least ≤ quotient (matched a b) (a.length + b.length))) ∧
    ∀ a b : Text, sharedCount a b = ((a : Multiset Char) ∩ (b : Multiset Char)).card ∧
      matched a b ≤ sharedCount a b ∧ sharedCount a b ≤ min a.length b.length := by
  refine ⟨?_, pairwise_fuzzy threshold content search, isSome_similarity? threshold _,
    fun least => isKept_eq fun x y hle hx => ?_, fun a b =>
      ⟨sharedCount_eq_card_inter a b, matched_le_sharedCount a b, sharedCount_le_length a b⟩⟩
  · rw [fuzzy_eq_filter, scored_eq_map_range]
  · exact decide_eq_true ((of_decide_eq_true hx).trans hle)

end Match

end Emend
