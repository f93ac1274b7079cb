import Emend.Proofs.AnchorFit
import Emend.Proofs.StrictRun
import Emend.Proofs.WindowOffsets

/-!
# Looser options

Options that let more units be placed do not change a run in which none failed. For each unit that
was placed this says that it is placed in the same way again: a search text is found by the same
strategy, whatever strategies come after it and however much lower the threshold of the last one is
(`Match.locate_looser`), and a hunk at the same level, whatever levels come after it
(`Anchor.find_looser`). The run is then the same unit by unit (`Batch.run_looser`), with its tally.

The fuzzy strategy has to be the last one. Before another one it may take a place with a lower
threshold that it left to the other with a higher one.
-/

namespace Emend

/-! ## Runs -/

namespace Batch

variable {υ σ : Type} {b : Batch υ σ} {attempt : σ → υ → Traced (Attempt σ)}
  (hplaced : ∀ s u p, (b.attempt s u).value = .placed p → (attempt s u).value = .placed p)
include hplaced

/-- A run that put no failure on its tally is the same with attempts that place each unit as it was
placed. -/
theorem run_looser {strict telemetry : Bool} {units : List υ} {s s' : σ} {t t' : Tally}
    (hrun : (b.run strict telemetry s t units).value = .finished s' t')
    (hfailed : t'.failed ≤ t.failed) :
    (({ b with attempt := attempt } : Batch υ σ).run strict telemetry s t units).value =
      .finished s' t' := by
  induction units generalizing s t with
  | nil => exact hrun
  | cons u units ih =>
    cases h : (b.attempt s u).value with
    | placed p =>
      rw [run_of_placed h] at hrun
      have h' : (({ b with attempt := attempt } : Batch υ σ).attempt s u).value = .placed p :=
        hplaced s u p h
      rw [run_of_placed h']
      exact ih hrun hfailed
    | failed f e =>
      cases strict with
      | true =>
        rw [run_of_aborted h] at hrun
        cases hrun
      | false =>
        -- The failure would stay on the tally.
        obtain ⟨s'', t'', hrun', hext⟩ := b.run_lenient telemetry units s (t.fail f e)
        rw [run_of_failed h, hrun'] at hrun
        cases hrun
        exact absurd (Nat.lt_of_lt_of_le (Nat.lt_succ_self t.failed) hext.failed)
          (Nat.not_lt.mpr hfailed)

/-- An outcome without a failed unit is the same with attempts that place each unit as it was
placed. -/
theorem apply_looser {strict telemetry : Bool} {content : Text} {start : σ}
    {warnings : List Warning} {units : List υ}
    (h : (b.apply strict telemetry content start warnings units).value.failed = 0) :
    (({ b with attempt := attempt } : Batch υ σ).apply strict telemetry content start warnings
      units).value = (b.apply strict telemetry content start warnings units).value := by
  rw [apply_value] at h
  rw [apply_value, apply_value]
  cases hend : (b.run strict telemetry start (.initial warnings) units).value with
  | finished s t =>
    rw [hend] at h
    rw [run_looser hplaced hend h.le]
    rfl
  | aborted f e t =>
    -- All units of an aborted run failed, but without a unit nothing aborts it.
    rw [hend] at h
    have hnil : units = [] := List.length_eq_zero_iff.mp h
    rw [hnil, run_nil] at hend
    cases hend

end Batch

/-! ## Blocks -/

namespace Match

variable {content search : Text} {strategy : Strategy} {low high : Binary64} {m : Match}

/-- Only the fuzzy strategy looks at the threshold. -/
theorem candidates_of_ne (h : strategy ≠ .fuzzy) (low high : Binary64) (content search : Text) :
    candidates strategy low content search = candidates strategy high content search := by
  cases strategy with
  | fuzzy => exact absurd rfl h
  | _ => rfl

section Lower

variable (hlow : ∀ x, high.reachedBy x = true → low.reachedBy x = true)
include hlow

/-- The choice of a strategy is the same at a lower threshold. -/
theorem choose?_candidates
    (h : choose? content strategy (candidates strategy high content search) = some m) :
    choose? content strategy (candidates strategy low content search) = some m := by
  by_cases hs : strategy = .fuzzy
  · subst hs
    -- What a lower threshold adds is of lower confidence.
    have hfilter : candidates .fuzzy high content search = _ :=
      fuzzy_eq_filter_fuzzy hlow content search
    rw [hfilter] at h
    exact choose?_of_filter (pairwise_of_isLineBased rfl low content search)
      (fun _ _ => Binary64.reachedBy_mono) h
  · rwa [candidates_of_ne hs low high]

/-- A match of strategies is that of the same strategies with a lower threshold and others after
them, if the fuzzy strategy is not among them but as the last one. -/
theorem firstMatch_looser {strategies : List Strategy} (hfuzzy : .fuzzy ∉ strategies.dropLast)
    (h : (firstMatch high content search strategies).value = some m) (more : List Strategy) :
    (firstMatch low content search (strategies ++ more)).value = some m := by
  induction strategies with
  | nil => cases h
  | cons s ss ih =>
    rw [firstMatch_cons] at h
    rw [List.cons_append, firstMatch_cons]
    cases hchoice : choose? content s (candidates s high content search) with
    | some m' =>
      rw [hchoice, Option.some_or] at h
      rw [choose?_candidates hlow hchoice, Option.some_or, h]
    | none =>
      rw [hchoice, Option.none_or] at h
      have hne : ss ≠ [] := by
        rintro rfl
        cases h
      rw [List.dropLast_cons_of_ne_nil hne, List.mem_cons, not_or] at hfuzzy
      rw [candidates_of_ne (Ne.symm hfuzzy.1) low high, hchoice, Option.none_or]
      exact ih hfuzzy.2 h

/-- A search text is found where it was found with a higher threshold and fewer strategies. -/
theorem locate_looser {strategies : List Strategy} (hfuzzy : .fuzzy ∉ strategies.dropLast)
    (h : (locate strategies high content search).value = .ok m) (more : List Strategy) :
    (locate (strategies ++ more) low content search).value = .ok m := by
  rw [locate_eq_ok_iff, findBest] at h ⊢
  split_ifs at h ⊢
  · exact h
  · exact firstMatch_looser hlow hfuzzy h more

end Lower

end Match

/-- A block that was placed is placed in the same way with a lower threshold and more strategies. -/
theorem EditBlock.attempt_looser {options : Options} {threshold : Binary64}
    (hlow : ∀ x, options.threshold.reachedBy x = true → threshold.reachedBy x = true)
    (hfuzzy : .fuzzy ∉ options.strategies.dropLast) (more : List Strategy) {content : Text}
    {b : EditBlock} {p : Placement Text} (h : (attempt options content b).value = .placed p) :
    (attempt { options with strategies := options.strategies ++ more, threshold := threshold }
      content b).value = .placed p := by
  obtain ⟨m, hm, rfl⟩ := placement_of_attempt h
  rw [attempt_value, Match.locate_looser hlow hfuzzy hm more]

/-! ## Hunks -/

namespace Anchor

/-- An anchor at one of some levels is found whatever levels come after them. -/
theorem firstLevel_append {lines : List Text} {side : List HunkLine} {expected : Int}
    {levels : List AnchorLevel} {a : Anchor}
    (h : (firstLevel lines side expected levels).value = some a) (more : List AnchorLevel) :
    (firstLevel lines side expected (levels ++ more)).value = some a := by
  induction levels with
  | nil => cases h
  | cons level levels ih =>
    rw [firstLevel_cons] at h
    rw [List.cons_append, firstLevel_cons]
    cases hlevel : (nearestAt lines side expected level).value with
    | some a' => rwa [hlevel] at h
    | none =>
      rw [hlevel, Option.none_or] at h
      rw [Option.none_or, ih h]

/-- More levels come after the levels of less fuzz. -/
theorem levels_prefix {maxFuzz maxFuzz' : Nat} (h : maxFuzz ≤ maxFuzz') (contextCount : Nat) :
    AnchorLevel.levels maxFuzz contextCount <+: AnchorLevel.levels maxFuzz' contextCount := by
  have hmin : min maxFuzz contextCount ≤ min maxFuzz' contextCount := by omega
  have hrange :
      List.range (min maxFuzz contextCount) <+: List.range (min maxFuzz' contextCount) := by
    have htake := List.take_prefix (min maxFuzz contextCount)
      (List.range (min maxFuzz' contextCount))
    rwa [List.take_range, min_eq_left hmin] at htake
  have hfuzz := hrange.map fun i => AnchorLevel.fuzz (i + 1)
  exact List.cons_prefix_cons.mpr ⟨rfl, List.cons_prefix_cons.mpr ⟨rfl, hfuzz⟩⟩

/-- A hunk is found where it was found with less fuzz. -/
theorem find_looser {lines : List Text} {hunk : Hunk} {expected : Int} {maxFuzz maxFuzz' : Nat}
    {a : Anchor} (hle : maxFuzz ≤ maxFuzz')
    (h : (find lines hunk expected maxFuzz).value = some a) :
    (find lines hunk expected maxFuzz').value = some a := by
  obtain ⟨more, hmore⟩ := levels_prefix hle hunk.contextCount
  unfold find at h ⊢
  dsimp only at h ⊢
  split_ifs at h ⊢
  · exact h
  · exact h
  · exact h
  · rw [← hmore]
    exact firstLevel_append h more

end Anchor

/-- A hunk that was placed is placed in the same way with more fuzz. -/
theorem Hunk.attempt_looser {maxFuzz maxFuzz' : Nat} (hle : maxFuzz ≤ maxFuzz') {s : HunkState}
    {h : Hunk} {p : Placement HunkState} (hp : (attempt maxFuzz s h).value = .placed p) :
    (attempt maxFuzz' s h).value = .placed p := by
  obtain ⟨a, hchanges, ha, rfl⟩ := placement_of_attempt hp
  rw [attempt_value, if_pos hchanges, Anchor.find_looser hle ha]

/-! ## Calls -/

/-- A call in which no unit failed gives the same outcome with looser options: blocks with a lower
threshold and with strategies after those that the fuzzy one was at most the last of, and hunks with
more fuzz. -/
theorem looser_options_agree (options : Options) (content : Text) :
    (∀ (blocks : List EditBlock) (more : List Strategy) (threshold : Binary64) (low high : Rat),
      (EditBlock.applyAll options content blocks).value.failed = 0 →
      .fuzzy ∉ options.strategies.dropLast →
      threshold.toRat? = some low → options.threshold.toRat? = some high → low ≤ high →
      (EditBlock.applyAll
          { options with strategies := options.strategies ++ more, threshold := threshold }
          content blocks).value = (EditBlock.applyAll options content blocks).value) ∧
    (∀ (hunks : List Hunk) (warnings : List Warning) (maxFuzz : Nat),
      (Hunk.applyAll options content hunks warnings).value.failed = 0 →
      options.maxFuzz ≤ maxFuzz →
      (Hunk.applyAll { options with maxFuzz := maxFuzz } content hunks warnings).value =
        (Hunk.applyAll options content hunks warnings).value) := by
  constructor
  · intro blocks more threshold low high hfailed hfuzzy hlow hhigh hle
    have hreached : ∀ x, options.threshold.reachedBy x = true → threshold.reachedBy x = true := by
      intro x hx
      rw [Binary64.reachedBy_iff hhigh] at hx
      exact (Binary64.reachedBy_iff hlow).mpr (hle.trans hx)
    exact Batch.apply_looser (fun _ _ _ h => EditBlock.attempt_looser hreached hfuzzy more h) hfailed
  · intro hunks warnings maxFuzz hfailed hle
    exact Batch.apply_looser (fun _ _ _ h => Hunk.attempt_looser hle h) hfailed

/-- A document with two lines that are nearly the same and one that is less so. -/
def nearLines : Text := "abcde\nabxyz\nabcdx\n".toList

/-- Options under which only the lines that are nearly the same are similar enough. -/
def cautious : Options := ⟨false, true, [.exact, .fuzzy], .finite false (3 / 4), 1⟩

/-- A block for one of two places that are equally similar to its search text. -/
def nearBlock : EditBlock := ⟨0, "abcdy\n".toList, "b\n".toList⟩

/-- A hunk with a context line that differs. -/
def nearHunk : Hunk :=
  ⟨0, some 1, 3, some 1, 3,
    [⟨.context, "abcde".toList⟩, ⟨.remove, "abxyz".toList⟩, ⟨.add, "b".toList⟩,
      ⟨.context, "abcdy".toList⟩], "@@ -1,3 +1,3 @@".toList, false, false⟩

/-- The block and the hunk are applied in the same way with all lines similar enough, with another
strategy after the fuzzy one, and with more fuzz. -/
theorem looser_options_agree_cautious :
    ((EditBlock.applyAll cautious nearLines [nearBlock]).value.failed = 0 ∧
      .fuzzy ∉ cautious.strategies.dropLast ∧
      (Binary64.finite false (1 / 2)).toRat? = some (1 / 2) ∧
      cautious.threshold.toRat? = some (3 / 4) ∧ (1 / 2 : Rat) ≤ 3 / 4 ∧
      (Hunk.applyAll cautious nearLines [nearHunk] []).value.failed = 0 ∧ cautious.maxFuzz ≤ 5) ∧
    (EditBlock.applyAll
        { cautious with
          strategies := cautious.strategies ++ [.lineTrimmed], threshold := .finite false (1 / 2) }
        nearLines [nearBlock]).value = (EditBlock.applyAll cautious nearLines [nearBlock]).value ∧
    (Hunk.applyAll { cautious with maxFuzz := 5 } nearLines [nearHunk] []).value =
      (Hunk.applyAll cautious nearLines [nearHunk] []).value := by
  have hblocks : (EditBlock.applyAll cautious nearLines [nearBlock]).value.failed = 0 := by
    decide +kernel
  have hfuzzy : .fuzzy ∉ cautious.strategies.dropLast := by decide
  have hle : (1 / 2 : Rat) ≤ 3 / 4 := by norm_num
  have hhunks : (Hunk.applyAll cautious nearLines [nearHunk] []).value.failed = 0 := by
    decide +kernel
  have hfuzz : cautious.maxFuzz ≤ 5 := by decide
  obtain ⟨hsame, hsame'⟩ := looser_options_agree cautious nearLines
  exact ⟨⟨hblocks, hfuzzy, rfl, rfl, hle, hhunks, hfuzz⟩,
    hsame [nearBlock] [.lineTrimmed] (.finite false (1 / 2)) (1 / 2) (3 / 4) hblocks hfuzzy rfl rfl
      hle,
    hsame' [nearHunk] [] 5 hhunks hfuzz⟩

end Emend
