import Emend.Apply.Blocks
import Emend.Apply.Hunks

/-!
# Runs of a batch, unit by unit

What a run does with its first unit (`run_of_placed`, `run_of_failed`, `run_of_aborted`), so that
proofs by induction on the units never open `Batch.run`, and what comes of one block or one hunk
(`EditBlock.attempt_value`, `Hunk.attempt_value`), whether it was placed (`placement_of_attempt`) or
failed (`failure_of_attempt`). Both kinds of units keep their number in the record of a placed unit
and in the report of a failed one (`KeepsNumbers`), which is all that the account of a run needs to
know about them.
-/

namespace Emend

namespace Batch

variable {υ σ : Type}

/-- The record of a placed unit and the report of a failed one bear the number of the unit. -/
structure KeepsNumbers (b : Batch υ σ) : Prop where
  /-- The record of a placed unit bears its number. -/
  placed : ∀ s u p, (b.attempt s u).value = .placed p → p.record.index = b.index u
  /-- The report of a failed unit bears its number. -/
  failed : ∀ s u f e, (b.attempt s u).value = .failed f e → f.index = b.index u

/-- A run over no units is finished. -/
theorem run_nil (b : Batch υ σ) (strict telemetry : Bool) (s : σ) (t : Tally) :
    (b.run strict telemetry s t []).value = .finished s t := rfl

/-- After a placed unit the run goes on from the next state. -/
theorem run_of_placed {b : Batch υ σ} {s : σ} {u : υ} {p : Placement σ}
    (h : (b.attempt s u).value = .placed p) (strict telemetry : Bool) (t : Tally)
    (units : List υ) :
    (b.run strict telemetry s t (u :: units)).value =
      (b.run strict telemetry p.next (t.place telemetry p) units).value := by
  rw [run, Traced.value_bind, h]
  cases telemetry <;> rfl

/-- After a failed unit a lenient run goes on from the same state. -/
theorem run_of_failed {b : Batch υ σ} {s : σ} {u : υ} {f : FailedUnit} {e : OutcomeError}
    (h : (b.attempt s u).value = .failed f e) (telemetry : Bool) (t : Tally) (units : List υ) :
    (b.run false telemetry s t (u :: units)).value =
      (b.run false telemetry s (t.fail f e) units).value := by
  rw [run, Traced.value_bind, h]
  rfl

/-- A strict run stops at a failed unit. -/
theorem run_of_aborted {b : Batch υ σ} {s : σ} {u : υ} {f : FailedUnit} {e : OutcomeError}
    (h : (b.attempt s u).value = .failed f e) (telemetry : Bool) (t : Tally) (units : List υ) :
    (b.run true telemetry s t (u :: units)).value = .aborted f e t := by
  rw [run, Traced.value_bind, h]
  rfl

/-- A run that finished goes on with more units from where it did. -/
theorem run_append {b : Batch υ σ} {strict telemetry : Bool} {s s' : σ} {t t' : Tally}
    {units : List υ} (h : (b.run strict telemetry s t units).value = .finished s' t')
    (more : List υ) :
    (b.run strict telemetry s t (units ++ more)).value =
      (b.run strict telemetry s' t' more).value := by
  induction units generalizing s t with
  | nil =>
    rw [run_nil] at h
    cases h
    rfl
  | cons u units ih =>
    rw [List.cons_append]
    cases hu : (b.attempt s u).value with
    | placed p =>
      rw [run_of_placed hu] at h ⊢
      exact ih h
    | failed f e =>
      cases strict with
      | false =>
        rw [run_of_failed hu] at h ⊢
        exact ih h
      | true =>
        rw [run_of_aborted hu] at h
        cases h

/-- What holds of the first state of a run and is kept by each of its units holds of the last
state. -/
theorem run_invariant {b : Batch υ σ} {P : σ → Prop} {units : List υ}
    (hkept : ∀ u ∈ units, ∀ s p, (b.attempt s u).value = .placed p → P s → P p.next)
    {strict telemetry : Bool} {s s' : σ} {t t' : Tally} (hs : P s)
    (hrun : (b.run strict telemetry s t units).value = .finished s' t') : P s' := by
  induction units generalizing s t with
  | nil =>
    rw [run_nil] at hrun
    cases hrun
    exact hs
  | cons u units ih =>
    obtain ⟨hfirst, hrest⟩ := List.forall_mem_cons.mp hkept
    cases h : (b.attempt s u).value with
    | placed p =>
      rw [run_of_placed h] at hrun
      exact ih hrest (hfirst s p h hs) hrun
    | failed f e =>
      cases strict with
      | false =>
        rw [run_of_failed h] at hrun
        exact ih hrest hs hrun
      | true =>
        rw [run_of_aborted h] at hrun
        cases hrun

/-- How the document of a state is written does not matter to a run. -/
theorem run_render (b : Batch υ σ) (render : σ → Text) (strict telemetry : Bool) (s : σ) (t : Tally)
    (units : List υ) :
    ({ b with render := render } : Batch υ σ).run strict telemetry s t units =
      b.run strict telemetry s t units := by
  induction units generalizing s t with
  | nil => rfl
  | cons u units ih => simp only [run, ih]

/-- The outcome of a batch is that of the ending of its run. -/
theorem apply_value (b : Batch υ σ) (strict telemetry : Bool) (content : Text) (start : σ)
    (warnings : List Warning) (units : List υ) :
    (b.apply strict telemetry content start warnings units).value =
      b.outcome content units (b.run strict telemetry start (.initial warnings) units).value := rfl

end Batch

namespace EditBlock

/-- A block is placed where its search text is found, and fails if it is found nowhere. -/
theorem attempt_value (options : Options) (content : Text) (b : EditBlock) :
    (attempt options content b).value =
      match (Match.locate options.strategies options.threshold content
        b.search.unifyEndings).value with
      | .ok m => .placed (b.placement content b.search.unifyEndings b.replacement.unifyEndings m)
      | .error e => .failed ⟨b.index, .notFound e, b.search.unifyEndings.excerpt Text.reportLimit⟩
          (.block b.index (.notFound e) b.search.unifyEndings) := by
  unfold attempt
  rw [Traced.value_bind]
  cases (Match.locate options.strategies options.threshold content b.search.unifyEndings).value <;>
    rfl

/-- A block that was placed stands where its search text was found. -/
theorem placement_of_attempt {options : Options} {content : Text} {b : EditBlock}
    {p : Placement Text} (h : (attempt options content b).value = .placed p) :
    ∃ m, (Match.locate options.strategies options.threshold content b.search.unifyEndings).value =
        .ok m ∧
      p = b.placement content b.search.unifyEndings b.replacement.unifyEndings m := by
  rw [attempt_value] at h
  split at h
  · next m hm =>
    cases h
    exact ⟨m, hm, rfl⟩
  · cases h

/-- A block fails only because its search text is not found. -/
theorem failure_of_attempt {options : Options} {content : Text} {b : EditBlock} {f : FailedUnit}
    {e : OutcomeError} (h : (attempt options content b).value = .failed f e) :
    ∃ error, f = ⟨b.index, .notFound error, b.search.unifyEndings.excerpt Text.reportLimit⟩ ∧
      e = .block b.index (.notFound error) b.search.unifyEndings := by
  rw [attempt_value] at h
  split at h
  · cases h
  · next error _ =>
    cases h
    exact ⟨error, rfl, rfl⟩

/-- Blocks keep their numbers. -/
theorem batch_keepsNumbers (options : Options) (ending : LineEnding) :
    (batch options ending).KeepsNumbers := by
  constructor
  · intro content b p h
    obtain ⟨m, -, rfl⟩ := placement_of_attempt h
    rfl
  · intro content b f e h
    obtain ⟨error, rfl, -⟩ := failure_of_attempt h
    rfl

end EditBlock

namespace Hunk

/-- A hunk that changes something is placed at its anchor; without one, and without a change, it
fails. -/
theorem attempt_value (maxFuzz : Nat) (s : HunkState) (h : Hunk) :
    (attempt maxFuzz s h).value =
      if h.changes then
        match (Anchor.find s.lines h (h.expectedLine s.offset s.cursor) maxFuzz).value with
        | some a => .placed (h.placement s a)
        | none => h.failure
            (.notLocated h.oldLines.length (h.expectedLine s.offset s.cursor + 1) maxFuzz)
      else h.failure .noChange := by
  unfold attempt
  rw [Traced.value_bind]
  by_cases hc : h.changes = true
  · rw [if_pos hc, if_pos hc, Traced.value_bind]
    cases (Anchor.find s.lines h (h.expectedLine s.offset s.cursor) maxFuzz).value <;> rfl
  · rw [if_neg hc, if_neg hc]
    rfl

/-- A hunk that was placed changes something and stands at its anchor. -/
theorem placement_of_attempt {maxFuzz : Nat} {s : HunkState} {h : Hunk} {p : Placement HunkState}
    (hp : (attempt maxFuzz s h).value = .placed p) :
    ∃ a, h.changes = true ∧
      (Anchor.find s.lines h (h.expectedLine s.offset s.cursor) maxFuzz).value = some a ∧
      p = h.placement s a := by
  rw [attempt_value] at hp
  split at hp
  · next hchanges =>
    split at hp
    · next a ha =>
      cases hp
      exact ⟨a, hchanges, ha, rfl⟩
    · cases hp
  · cases hp

/-- A hunk fails because it changes nothing or because it has no anchor. -/
theorem failure_of_attempt {maxFuzz : Nat} {s : HunkState} {h : Hunk} {f : FailedUnit}
    {e : OutcomeError} (hf : (attempt maxFuzz s h).value = .failed f e) :
    ∃ reason, (reason = .noChange ∨ ∃ size line, reason = .notLocated size line maxFuzz) ∧
      f = ⟨h.index, reason, (Text.unlines h.oldLines).excerpt Text.reportLimit⟩ ∧
      e = .hunk h.index h.header reason := by
  rw [attempt_value] at hf
  split at hf
  · split at hf
    · cases hf
    · cases hf
      exact ⟨_, .inr ⟨_, _, rfl⟩, rfl, rfl⟩
  · cases hf
    exact ⟨_, .inl rfl, rfl, rfl⟩

/-- Hunks keep their numbers. -/
theorem batch_keepsNumbers (options : Options) (ending : LineEnding) :
    (batch options ending).KeepsNumbers := by
  constructor
  · intro s h p hp
    obtain ⟨a, -, -, rfl⟩ := placement_of_attempt hp
    rfl
  · intro s h f e hf
    obtain ⟨reason, -, rfl, -⟩ := failure_of_attempt hf
    rfl

end Hunk

end Emend
