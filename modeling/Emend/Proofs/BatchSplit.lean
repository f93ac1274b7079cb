import Emend.Proofs.DocumentEndings
import Emend.Proofs.StrictRun

/-!
# Batches in two parts

A lenient batch of blocks may be applied in two parts, the second one to the document that the first
one gives. Between two blocks a run carries nothing along but the document and its tally. The tally
is only ever added to (`run_append_tally`), so that the second part may start from an empty one, and
the two tallies are put together (`Tally.append`). The document is written with its line endings
between the parts and read with unified endings again. This gives back what the run had, in the same
style, as long as the style still shows in the document (`reopen_of_run`).
-/

namespace Emend

/-- The account of the units of two tallies, one after the other. -/
def Tally.append (t u : Tally) : Tally :=
  ⟨t.applied + u.applied, t.failed + u.failed, t.errors ++ u.errors, t.warnings ++ u.warnings,
    t.failures ++ u.failures, t.records ++ u.records⟩

namespace Tally

variable {σ : Type}

/-- Nothing is added by a tally of nothing. -/
theorem append_initial (t : Tally) : t.append (.initial []) = t := by
  simp [append, initial]

/-- A unit is placed on the second tally. -/
theorem append_place (t u : Tally) (keep : Bool) (p : Placement σ) :
    (t.append u).place keep p = t.append (u.place keep p) := by
  cases keep <;> simp [append, place, Nat.add_assoc]

/-- A unit fails on the second tally. -/
theorem append_fail (t u : Tally) (f : FailedUnit) (e : OutcomeError) :
    (t.append u).fail f e = t.append (u.fail f e) := by
  simp [append, fail, Nat.add_assoc]

end Tally

/-- The account of two calls, the second one on the document that the first one gives. -/
def Outcome.followedBy (first second : Outcome) : Outcome :=
  ⟨second.content, first.total + second.total, first.applied + second.applied,
    first.failed + second.failed, first.errors ++ second.errors, first.warnings ++ second.warnings,
    first.failures ++ second.failures, first.records ++ second.records⟩

namespace Batch

variable {υ σ : Type} {b : Batch υ σ} {telemetry : Bool} {units : List υ} {s s' : σ} {u u' : Tally}

/-- What is on a tally before a run stays in front of what the run puts there. -/
theorem run_append_tally (h : (b.run false telemetry s u units).value = .finished s' u')
    (t : Tally) :
    (b.run false telemetry s (t.append u) units).value = .finished s' (t.append u') := by
  induction units generalizing s u with
  | nil =>
    rw [run_nil] at h ⊢
    cases h
    rfl
  | cons v units ih =>
    cases hv : (b.attempt s v).value with
    | placed p =>
      rw [run_of_placed hv] at h ⊢
      rw [Tally.append_place]
      exact ih h
    | failed f e =>
      rw [run_of_failed hv] at h ⊢
      rw [Tally.append_fail]
      exact ih h

/-- A run never takes a placed unit off its tally, and without one it stays in its state. -/
theorem applied_le_of_run (h : (b.run false telemetry s u units).value = .finished s' u') :
    u.applied ≤ u'.applied ∧ (u'.applied = u.applied → s' = s) := by
  induction units generalizing s u with
  | nil =>
    rw [run_nil] at h
    cases h
    exact ⟨Nat.le_refl _, fun _ => rfl⟩
  | cons v units ih =>
    cases hv : (b.attempt s v).value with
    | placed p =>
      rw [run_of_placed hv] at h
      have hle : u.applied + 1 ≤ u'.applied := (ih h).1
      exact ⟨by omega, fun heq => by omega⟩
    | failed f e =>
      rw [run_of_failed hv] at h
      have hrest := ih h
      exact hrest

/-- A lenient batch may be applied in two parts, if the second part starts from the state that the
first one ends in, on a document that stands for this state. -/
theorem apply_append {content : Text} {start : σ} {warnings : List Warning} {t : Tally}
    {first second : List υ}
    (hfirst : (b.run false telemetry start (.initial warnings) first).value = .finished s t) :
    (b.apply false telemetry content start warnings (first ++ second)).value =
      (b.apply false telemetry content start warnings first).value.followedBy
        (b.apply false telemetry (b.outcome content first (.finished s t)).content s []
          second).value := by
  obtain ⟨s', u, hsecond, -⟩ := b.run_lenient telemetry second s (.initial [])
  -- The second run adds its tally to that of the first one.
  have hboth := run_append_tally hsecond t
  rw [Tally.append_initial] at hboth
  rw [apply_value, apply_value, apply_value, run_append hfirst, hboth, hfirst, hsecond]
  have hcontent : (b.outcome content (first ++ second) (.finished s' (t.append u))).content =
      (b.outcome (b.outcome content first (.finished s t)).content second
        (.finished s' u)).content := by
    show (if t.applied + u.applied = 0 then content else b.render s') =
      if u.applied = 0 then (if t.applied = 0 then content else b.render s) else b.render s'
    by_cases hu : u.applied = 0
    · -- The second part leaves the state as it is.
      rw [(applied_le_of_run hsecond).2 hu, hu, Nat.add_zero, if_pos rfl]
    · rw [if_neg hu, if_neg (by omega)]
  have hlength : (first ++ second).length = first.length + second.length := List.length_append
  calc b.outcome content (first ++ second) (.finished s' (t.append u))
      = ⟨(b.outcome content (first ++ second) (.finished s' (t.append u))).content,
          (first ++ second).length, t.applied + u.applied, t.failed + u.failed,
          t.errors ++ u.errors, t.warnings ++ u.warnings, t.failures ++ u.failures,
          t.records ++ u.records⟩ := rfl
    _ = (b.outcome content first (.finished s t)).followedBy
          (b.outcome (b.outcome content first (.finished s t)).content second
            (.finished s' u)) := by rw [hcontent, hlength]; rfl

end Batch

namespace EditBlock

/-- The document after a run over blocks has the style of the document before it and stands for the
state of the run, if that style shows in it. -/
theorem reopen_of_run {options : Options} {content middle s : Text} {telemetry : Bool} {t : Tally}
    {blocks : List EditBlock}
    (hrun : ((batch options content.dominantEnding).run false telemetry content.unifyEndings
      (.initial []) blocks).value = .finished s t)
    (hmiddle : middle =
      if t.applied = 0 then content else s.writeEndings content.dominantEnding.text)
    (hshows : ¬ middle.IsPlain ∨ content.dominantEnding = .lf) :
    middle.dominantEnding = content.dominantEnding ∧ middle.unifyEndings = s := by
  have hs : '\r' ∉ s := return_notMem_of_run hrun
  by_cases happlied : t.applied = 0
  · -- The document is as it was.
    rw [if_pos happlied] at hmiddle
    rw [hmiddle]
    exact ⟨rfl, ((Batch.applied_le_of_run hrun).2 happlied).symm⟩
  · rw [if_neg happlied] at hmiddle
    rw [hmiddle] at hshows ⊢
    exact ⟨Text.dominantEnding_writeEndings hs hshows,
      Text.unifyEndings_writeEndings hs content.dominantEnding⟩

/-- A lenient batch of blocks may be applied in two parts, if the style of the line endings still
shows in the document between them or is that of the line feed. -/
theorem applyAll_append (options : Options) (hlenient : options.strict = false) (content : Text)
    (first second : List EditBlock)
    (hshows : ¬ (applyAll options content first).value.content.IsPlain ∨
      content.dominantEnding = .lf) :
    (applyAll options content (first ++ second)).value =
      (applyAll options content first).value.followedBy
        (applyAll options (applyAll options content first).value.content second).value := by
  unfold applyAll at hshows ⊢
  rw [hlenient] at hshows ⊢
  obtain ⟨s, t, hrun, -⟩ := (batch options content.dominantEnding).run_lenient options.telemetry
    first content.unifyEndings (.initial [])
  rw [Batch.apply_append hrun]
  rw [Batch.apply_value, hrun] at hshows ⊢
  have hmiddle : ((batch options content.dominantEnding).outcome content first
      (.finished s t)).content =
        if t.applied = 0 then content else s.writeEndings content.dominantEnding.text := rfl
  obtain ⟨hending, hstate⟩ := reopen_of_run hrun hmiddle hshows
  rw [hending, hstate]

/-- Lenient options under which places are kept. -/
def recordingOptions : Options := ⟨false, true, [.exact, .lineTrimmed], .finite false 1, 0⟩

/-- Lines of which all but one end with both characters. -/
def mixedEndings : Text := "a\r\nb\nc\r\n".toList

/-- A block that is applied and one that is not. -/
def firstPart : List EditBlock :=
  [⟨0, "a\n".toList, "A\nA\n".toList⟩, ⟨1, "x\n".toList, "y\n".toList⟩]

/-- A block that is applied and one that is not, numbered from zero again. -/
def secondPart : List EditBlock :=
  [⟨0, " c\n".toList, "A\n".toList⟩, ⟨1, "c\n".toList, "d\n".toList⟩]

/-- The line that ends with a line feed gets the other ending with the first part. -/
theorem applyAll_append_mixedEndings :
    recordingOptions.strict = false ∧
    (applyAll recordingOptions mixedEndings firstPart).value.content =
      "A\r\nA\r\nb\r\nc\r\n".toList ∧
    ¬ (applyAll recordingOptions mixedEndings firstPart).value.content.IsPlain ∧
    (applyAll recordingOptions mixedEndings (firstPart ++ secondPart)).value =
      (applyAll recordingOptions mixedEndings firstPart).value.followedBy
        (applyAll recordingOptions
          (applyAll recordingOptions mixedEndings firstPart).value.content secondPart).value := by
  have hmiddle : (applyAll recordingOptions mixedEndings firstPart).value.content =
      "A\r\nA\r\nb\r\nc\r\n".toList := by decide +kernel
  have hbreak : ¬ (applyAll recordingOptions mixedEndings firstPart).value.content.IsPlain := by
    rw [hmiddle]
    decide
  exact ⟨rfl, hmiddle, hbreak,
    applyAll_append recordingOptions rfl mixedEndings firstPart secondPart (.inl hbreak)⟩

end EditBlock

end Emend
