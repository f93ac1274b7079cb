import Emend.Proofs.StrictRun

/-!
# The report of a strict run

A strict run that stops at a unit accounts for all units: those before it were rolled back and those
after it were not attempted (`Batch.report`). The outcome says so by the numbers of the units, which
it compares with the number of the unit that failed, and not by where they stand. A unit that fails
does so for a reason of its own (`FailsForOwnReasons`), so that a unit with the same number, which
is reported with that failure, is never reported as it should be. Hence the report of the outcome is
the right one exactly if the numbers tell the units before the failed one from those after it
(`Batch.Separates`). Numbers that grow along the edit do, with or without gaps.
-/

namespace Emend

/-- Whether the reason of a failure lies in the unit that failed and not in another one. -/
def Reason.isOwn : Reason → Bool
  | .rolledBack _ _ => false
  | .notAttempted _ _ => false
  | _ => true

namespace Batch

variable {υ σ : Type}

/-- Units fail for reasons of their own. -/
def FailsForOwnReasons (b : Batch υ σ) : Prop :=
  ∀ s u f e, (b.attempt s u).value = .failed f e → f.reason.isOwn = true

/-- The unit `u` is the first one that fails, after the units before it were placed. -/
def FirstFailure (b : Batch υ σ) (telemetry : Bool) (start : σ) (warnings : List Warning)
    (before : List υ) (u : υ) (failure : FailedUnit) (error : OutcomeError) : Prop :=
  ∃ s t, (b.run true telemetry start (.initial warnings) before).value = .finished s t ∧
    (b.attempt s u).value = .failed failure error

/-- The report of the units of a strict run that stopped at the unit between the two lists. -/
def report (b : Batch υ σ) (failure : FailedUnit) (before after : List υ) : List FailedUnit :=
  before.map (fun v => ⟨b.index v, .rolledBack b.kind failure.index, []⟩) ++
    failure :: after.map fun v => ⟨b.index v, .notAttempted b.kind failure.index, []⟩

/-- An outcome reports the units of a strict run as it stopped, and says how many were rolled
back. -/
structure Reports (b : Batch υ σ) (o : Outcome) (before after : List υ) (failure : FailedUnit)
    (error : OutcomeError) : Prop where
  /-- Each unit is reported by where it stands. -/
  failures : o.failures = b.report failure before after
  /-- The units before the failed one were rolled back. -/
  errors : o.errors = [error, .aborted b.kind failure.index before.length]

/-- The numbers of units tell those before a unit from those after it. -/
structure Separates (b : Batch υ σ) (before : List υ) (u : υ) (after : List υ) : Prop where
  /-- Units before it have smaller numbers. -/
  before : ∀ v ∈ before, b.index v < b.index u
  /-- Units after it have larger numbers. -/
  after : ∀ v ∈ after, b.index u < b.index v

variable {b : Batch υ σ} {failure : FailedUnit}

/-- A unit is reported as rolled back exactly if its number is smaller. -/
theorem undone_eq_rolledBack_iff (hown : failure.reason.isOwn = true) (n : Int) :
    b.undone failure failure.index n = ⟨n, .rolledBack b.kind failure.index, []⟩ ↔
      n < failure.index := by
  unfold undone
  constructor
  · intro h
    split at h
    · -- The failure itself is none that was rolled back.
      rw [h] at hown
      cases hown
    · split at h
      · next hlt => exact hlt
      · cases h
  · intro hlt
    rw [if_neg (by omega), if_pos hlt]

/-- A unit is reported as not attempted exactly if its number is larger. -/
theorem undone_eq_notAttempted_iff (hown : failure.reason.isOwn = true) (n : Int) :
    b.undone failure failure.index n = ⟨n, .notAttempted b.kind failure.index, []⟩ ↔
      failure.index < n := by
  unfold undone
  constructor
  · intro h
    split at h
    · rw [h] at hown
      cases hown
    · split at h
      · cases h
      · omega
  · intro hlt
    rw [if_neg (by omega), if_neg (by omega)]

/-- The units of an aborted run are reported as they should be exactly if their numbers tell them
apart. -/
theorem map_undone_eq_report_iff (hown : failure.reason.isOwn = true) {u : υ}
    (hindex : failure.index = b.index u) (before after : List υ) :
    ((before ++ u :: after).map b.index).map (b.undone failure failure.index) =
        b.report failure before after ↔ b.Separates before u after := by
  have hself : b.undone failure failure.index (b.index u) = failure := if_pos hindex.symm
  -- The reports of the parts are as long as the parts.
  have hparts : ((before ++ u :: after).map b.index).map (b.undone failure failure.index) =
        b.report failure before after ↔
      (before.map fun v => b.undone failure failure.index (b.index v)) =
          (before.map fun v => ⟨b.index v, .rolledBack b.kind failure.index, []⟩) ∧
        (after.map fun v => b.undone failure failure.index (b.index v)) =
          after.map fun v => ⟨b.index v, .notAttempted b.kind failure.index, []⟩ := by
    rw [List.map_map, List.map_append, List.map_cons, Function.comp_apply, hself, report]
    rw [List.append_eq_append_iff_of_size_eq_left (by simp)]
    simp [Function.comp_def]
  rw [hparts, List.map_inj_left, List.map_inj_left]
  simp only [undone_eq_rolledBack_iff hown, undone_eq_notAttempted_iff hown]
  rw [hindex]
  exact ⟨fun ⟨h₁, h₂⟩ => ⟨h₁, h₂⟩, fun ⟨h₁, h₂⟩ => ⟨h₁, h₂⟩⟩

/-- If the numbers of the units tell them apart, those with smaller numbers than the failed unit are
as many as stand before it. -/
theorem Separates.countP_lt {before after : List υ} {u : υ} (h : b.Separates before u after) :
    ((before ++ u :: after).map b.index).countP (· < b.index u) = before.length := by
  have hbefore : (before.map b.index).countP (· < b.index u) = before.length := by
    rw [List.countP_map, List.countP_eq_length]
    exact fun v hv => decide_eq_true (h.before v hv)
  have hafter : ((u :: after).map b.index).countP (· < b.index u) = 0 := by
    rw [List.countP_map, List.countP_eq_zero]
    intro v hv
    have hle : b.index u ≤ b.index v := by
      obtain rfl | hv := List.mem_cons.mp hv
      · exact Int.le_refl _
      · exact Int.le_of_lt (h.after v hv)
    simpa using hle
  rw [List.map_append, List.countP_append, hbefore, hafter, Nat.add_zero]

/-- The outcome of a strict batch whose first failure is that of the unit `u` reports the units as
it should exactly if their numbers tell them apart. -/
theorem apply_reports_iff (hnumbers : b.KeepsNumbers) (hreasons : b.FailsForOwnReasons)
    {telemetry : Bool} {start : σ} {warnings : List Warning} {before : List υ} {u : υ}
    {error : OutcomeError}
    (hfirst : b.FirstFailure telemetry start warnings before u failure error) (content : Text)
    (after : List υ) :
    b.Reports (b.apply true telemetry content start warnings (before ++ u :: after)).value before
        after failure error ↔ b.Separates before u after := by
  obtain ⟨s, t, hrun, hu⟩ := hfirst
  have hindex := hnumbers.failed s u failure error hu
  have hiff := map_undone_eq_report_iff (hreasons s u failure error hu) hindex before after
  rw [apply_value, run_append hrun, run_of_aborted hu]
  constructor
  · exact fun h => hiff.mp h.failures
  · intro h
    refine ⟨hiff.mpr h, ?_⟩
    show [error, OutcomeError.aborted b.kind failure.index
      (((before ++ u :: after).map b.index).countP (· < failure.index))] = _
    rw [hindex, h.countP_lt]

end Batch

/-- Blocks fail for reasons of their own. -/
theorem EditBlock.batch_failsForOwnReasons (options : Options) (ending : LineEnding) :
    (EditBlock.batch options ending).FailsForOwnReasons := by
  intro content b f e h
  obtain ⟨error, rfl, -⟩ := EditBlock.failure_of_attempt h
  rfl

/-- Hunks fail for reasons of their own. -/
theorem Hunk.batch_failsForOwnReasons (options : Options) (ending : LineEnding) :
    (Hunk.batch options ending).FailsForOwnReasons := by
  intro s h f e hf
  obtain ⟨reason, rfl | ⟨size, line, rfl⟩, rfl, -⟩ := Hunk.failure_of_attempt hf
  · rfl
  · rfl

/-- A strict call whose first failure is that of a unit reports each unit by where it stands, and
says how many were rolled back, exactly if the units before it have smaller numbers and those after
it larger ones. -/
theorem strict_reports_iff (options : Options) (content : Text) :
    (∀ (before after : List EditBlock) (b : EditBlock) (f : FailedUnit) (e : OutcomeError),
      (EditBlock.batch options content.dominantEnding).FirstFailure options.telemetry
        content.unifyEndings [] before b f e →
      ((EditBlock.batch options content.dominantEnding).Reports
          (EditBlock.applyAll { options with strict := true } content
            (before ++ b :: after)).value before after f e ↔
        (EditBlock.batch options content.dominantEnding).Separates before b after)) ∧
    (∀ (before after : List Hunk) (h : Hunk) (f : FailedUnit) (e : OutcomeError)
      (warnings : List Warning),
      (Hunk.batch options content.dominantEnding).FirstFailure options.telemetry
        (HunkState.ofContent content.unifyEndings) warnings before h f e →
      ((Hunk.batch options content.dominantEnding).Reports
          (Hunk.applyAll { options with strict := true } content (before ++ h :: after)
            warnings).value before after f e ↔
        (Hunk.batch options content.dominantEnding).Separates before h after)) := by
  constructor
  · intro before after b f e hfirst
    exact Batch.apply_reports_iff (EditBlock.batch_keepsNumbers options _)
      (EditBlock.batch_failsForOwnReasons options _) hfirst content after
  · intro before after h f e warnings hfirst
    exact Batch.apply_reports_iff (Hunk.batch_keepsNumbers options _)
      (Hunk.batch_failsForOwnReasons options _) hfirst content after

/-- Options under which search texts are found as they are. -/
def exactOptions : Options := ⟨true, false, [.exact], .finite false 1, 0⟩

/-- A block with a number that replaces one line by another. -/
def numberedBlock (n : Int) (old new : String) : EditBlock :=
  ⟨n, (old ++ "\n").toList, (new ++ "\n").toList⟩

/-- A bare hunk with a number that replaces one line by another. -/
def numberedHunk (n : Int) (old new : String) : Hunk :=
  ⟨n, none, 0, none, 0, [⟨.remove, old.toList⟩, ⟨.add, new.toList⟩], "@@".toList, false, false⟩

/-- The reason for which a search text is not found under these options. -/
def notFoundExactly : Reason := .notFound ⟨[.exact]⟩

/-- A block and a hunk that fail between two others are reported as they should be, though there are
gaps between the numbers. -/
theorem strict_reports_gaps :
    (EditBlock.batch exactOptions .lf).Reports
      (EditBlock.applyAll { exactOptions with strict := true } "a\nb\n".toList
        [numberedBlock (-2) "a" "A", numberedBlock 3 "z" "Z", numberedBlock 9 "b" "B"]).value
      [numberedBlock (-2) "a" "A"] [numberedBlock 9 "b" "B"] ⟨3, notFoundExactly, "z".toList⟩
      (.block 3 notFoundExactly "z\n".toList) ∧
    (Hunk.batch exactOptions .lf).Reports
      (Hunk.applyAll { exactOptions with strict := true } "a\nb\n".toList
        [numberedHunk (-2) "a" "A", numberedHunk 3 "z" "Z", numberedHunk 9 "b" "B"] []).value
      [numberedHunk (-2) "a" "A"] [numberedHunk 9 "b" "B"] ⟨3, .notLocated 1 2 0, "z".toList⟩
      (.hunk 3 "@@".toList (.notLocated 1 2 0)) := by
  obtain ⟨hblocks, hhunks⟩ := strict_reports_iff exactOptions "a\nb\n".toList
  constructor
  · exact (hblocks [_] [_] (numberedBlock 3 "z" "Z") _ _ ⟨_, _, rfl, rfl⟩).mpr
      ⟨by decide, by decide⟩
  · exact (hhunks [_] [_] (numberedHunk 3 "z" "Z") _ _ [] ⟨_, _, rfl, rfl⟩).mpr
      ⟨by decide, by decide⟩

/-- Of two blocks with the same number the first one is reported with the failure of the second
one, and no block is said to be rolled back. -/
theorem strict_reports_sameNumbers :
    (EditBlock.batch exactOptions .lf).FirstFailure false "a\n".toList []
      [numberedBlock 0 "a" "A"] (numberedBlock 0 "z" "Z") ⟨0, notFoundExactly, "z".toList⟩
      (.block 0 notFoundExactly "z\n".toList) ∧
    (EditBlock.applyAll exactOptions "a\n".toList
        [numberedBlock 0 "a" "A", numberedBlock 0 "z" "Z"]).value.failures =
      [⟨0, notFoundExactly, "z".toList⟩, ⟨0, notFoundExactly, "z".toList⟩] ∧
    (EditBlock.applyAll exactOptions "a\n".toList
        [numberedBlock 0 "a" "A", numberedBlock 0 "z" "Z"]).value.errors =
      [.block 0 notFoundExactly "z\n".toList, .aborted .block 0 0] ∧
    ¬ (EditBlock.batch exactOptions .lf).Reports
      (EditBlock.applyAll exactOptions "a\n".toList
        [numberedBlock 0 "a" "A", numberedBlock 0 "z" "Z"]).value
      [numberedBlock 0 "a" "A"] [] ⟨0, notFoundExactly, "z".toList⟩
      (.block 0 notFoundExactly "z\n".toList) := by
  refine ⟨⟨_, _, rfl, rfl⟩, by decide +kernel, by decide +kernel, fun h => ?_⟩
  have hfailures := h.failures
  revert hfailures
  decide +kernel

end Emend
