import Emend.Proofs.Accounting

/-!
# Strict and lenient runs

A strict and a lenient run over the same units do the same up to the first failure. There the strict
run stops with the failure and its error in hand, while the lenient run puts them on its tally, from
which nothing is ever taken off again (`Tally.Extends`). So the two endings of a run are one and the
same, or the tally of the lenient one extends that of the strict one by the failure it stopped at
(`Ending.Agree`), and the outcomes agree as far as a reader of the strict one can see.
-/

namespace Emend

/-- Nothing that a tally says was taken back in another, though more may have been added. -/
structure Tally.Extends (before after : Tally) : Prop where
  /-- No failed unit is taken off the count. -/
  failed : before.failed ≤ after.failed
  /-- The errors are kept, in front. -/
  errors : before.errors <+: after.errors
  /-- The warnings are kept, in front. -/
  warnings : before.warnings <+: after.warnings
  /-- The failures are kept, in front. -/
  failures : before.failures <+: after.failures

namespace Tally.Extends

variable {σ : Type}

/-- A tally extends itself. -/
theorem refl (t : Tally) : t.Extends t :=
  ⟨Nat.le_refl _, List.prefix_refl _, List.prefix_refl _, List.prefix_refl _⟩

/-- A tally that extends another one extends what that one extends. -/
theorem trans {t₁ t₂ t₃ : Tally} (h₁ : t₁.Extends t₂) (h₂ : t₂.Extends t₃) : t₁.Extends t₃ :=
  ⟨Nat.le_trans h₁.failed h₂.failed, h₁.errors.trans h₂.errors, h₁.warnings.trans h₂.warnings,
    h₁.failures.trans h₂.failures⟩

/-- A placed unit extends a tally. -/
theorem place (t : Tally) (keep : Bool) (p : Placement σ) : t.Extends (t.place keep p) :=
  ⟨Nat.le_refl _, List.prefix_refl _, List.prefix_append _ _, List.prefix_refl _⟩

/-- A failed unit extends a tally. -/
theorem fail (t : Tally) (f : FailedUnit) (e : OutcomeError) : t.Extends (t.fail f e) :=
  ⟨Nat.le_succ _, List.prefix_append _ _, List.prefix_refl _, List.prefix_append _ _⟩

end Tally.Extends

namespace Batch

variable {υ σ : Type}

/-- A lenient run finishes, with a tally that extends the one it started from. -/
theorem run_lenient (b : Batch υ σ) (telemetry : Bool) (units : List υ) (s : σ) (t : Tally) :
    ∃ s' t', (b.run false telemetry s t units).value = .finished s' t' ∧ t.Extends t' := by
  induction units generalizing s t with
  | nil => exact ⟨s, t, run_nil b false telemetry s t, .refl t⟩
  | cons u units ih =>
    cases h : (b.attempt s u).value with
    | placed p =>
      obtain ⟨s', t', hrun, hext⟩ := ih p.next (t.place telemetry p)
      exact ⟨s', t', by rw [run_of_placed h, hrun], (Tally.Extends.place t telemetry p).trans hext⟩
    | failed f e =>
      obtain ⟨s', t', hrun, hext⟩ := ih s (t.fail f e)
      exact ⟨s', t', by rw [run_of_failed h, hrun], (Tally.Extends.fail t f e).trans hext⟩

end Batch

/-- How a strict and a lenient run from the same tally end: at the same place without a failure on
the way, or apart, the strict one at the failure that comes first on the tally of the other. -/
inductive Ending.Agree {σ : Type} (t : Tally) : Ending σ → Ending σ → Prop
  /-- No unit failed. -/
  | together {s' : σ} {t' : Tally} (failed : t'.failed = t.failed) :
      Agree t (.finished s' t') (.finished s' t')
  /-- The strict run stopped at a failure. -/
  | apart {f : FailedUnit} {e : OutcomeError} {s' : σ} {t₁ t' : Tally}
      (failures : t₁.failures = t.failures) (errors : t₁.errors = t.errors)
      (ext : (t₁.fail f e).Extends t') : Agree t (.aborted f e t₁) (.finished s' t')

/-- A placed unit adds neither a failure nor an error, so that runs which agree from there on agree
from before it. -/
theorem Ending.Agree.of_place {σ : Type} {t : Tally} {keep : Bool} {p : Placement σ}
    {strict lenient : Ending σ} (h : Ending.Agree (t.place keep p) strict lenient) :
    Ending.Agree t strict lenient := by
  cases h with
  | together failed => exact .together failed
  | apart failures errors ext => exact .apart failures errors ext

/-- A strict and a lenient run from the same state and tally agree. -/
theorem Batch.run_agree {υ σ : Type} (b : Batch υ σ) (telemetry : Bool) (units : List υ) (s : σ)
    (t : Tally) :
    Ending.Agree t (b.run true telemetry s t units).value
      (b.run false telemetry s t units).value := by
  -- Both runs are in the same state up to the first failure.
  induction units generalizing s t with
  | nil => exact .together rfl
  | cons u units ih =>
    cases h : (b.attempt s u).value with
    | placed p =>
      rw [run_of_placed h, run_of_placed h]
      exact (ih p.next (t.place telemetry p)).of_place
    | failed f e =>
      -- The lenient run goes on without taking anything back.
      obtain ⟨s', t', hrun, hext⟩ := b.run_lenient telemetry units s (t.fail f e)
      rw [run_of_aborted h, run_of_failed h, hrun]
      exact .apart rfl rfl hext

/-- How the outcome of a strict call agrees with that of the lenient call it was spared. -/
structure Outcome.Agree (strict lenient : Outcome) (content : Text) : Prop where
  /-- If no unit fails the outcomes are the same. -/
  same : lenient.failed = 0 → strict = lenient
  /-- Otherwise the strict call applies nothing and returns the document as it was. -/
  undone : lenient.failed ≠ 0 → strict.content = content ∧ strict.applied = 0
  /-- The first errors are the same. -/
  error : lenient.failed ≠ 0 → ∃ e, lenient.errors.head? = some e ∧ strict.errors.head? = some e
  /-- The strict call reports the first failure of the lenient one. -/
  failure : lenient.failed ≠ 0 → ∃ f, lenient.failures.head? = some f ∧ f ∈ strict.failures
  /-- The strict call warns of what the lenient one warns of first. -/
  warnings : lenient.failed ≠ 0 → strict.warnings <+: lenient.warnings

/-- The outcomes of a strict and a lenient run of a batch agree. -/
theorem Batch.apply_agree {υ σ : Type} {b : Batch υ σ} (hb : b.KeepsNumbers) (telemetry : Bool)
    (content : Text) (start : σ) (warnings : List Warning) (units : List υ) :
    Outcome.Agree (b.apply true telemetry content start warnings units).value
      (b.apply false telemetry content start warnings units).value content := by
  rw [apply_value, apply_value]
  have hagree := b.run_agree telemetry units start (.initial warnings)
  have hstrict := run_accounts hb units start _ [] (Tally.Accounts.initial warnings telemetry)
    (fun (_ : true = true) => rfl)
  generalize (b.run true telemetry start _ units).value = strict at hagree hstrict ⊢
  generalize (b.run false telemetry start _ units).value = lenient at hagree ⊢
  cases hagree with
  | @together s' t' failed =>
    have hzero : (b.outcome content units (.finished s' t')).failed = 0 := failed
    exact ⟨fun _ => rfl, fun h => absurd hzero h, fun h => absurd hzero h,
      fun h => absurd hzero h, fun h => absurd hzero h⟩
  | @apart f e s' t₁ t' failures errors ext =>
    obtain ⟨-, hnumber⟩ := hstrict
    obtain ⟨hcount, herrors, hwarnings, hfailures⟩ := ext
    -- Nothing stands on the tallies before the failure `f` and its error `e`.
    have hf : [f] <+: t'.failures := by
      have hone : (t₁.fail f e).failures = [f] := congrArg (· ++ [f]) failures
      rwa [hone] at hfailures
    have he : [e] <+: t'.errors := by
      have hone : (t₁.fail f e).errors = [e] := congrArg (· ++ [e]) errors
      rwa [hone] at herrors
    have hfailed : (b.outcome content units (.finished s' t')).failed ≠ 0 :=
      Nat.ne_of_gt (Nat.lt_of_lt_of_le (Nat.succ_pos _) hcount)
    refine ⟨fun h => absurd h hfailed, fun _ => ⟨rfl, rfl⟩, fun _ => ?_, fun _ => ?_,
      fun _ => hwarnings⟩
    · exact ⟨e, List.singleton_prefix_iff_head?_eq_some.mp he, rfl⟩
    · refine ⟨f, List.singleton_prefix_iff_head?_eq_some.mp hf, ?_⟩
      exact List.mem_map.mpr ⟨f.index, hnumber, if_pos rfl⟩

/-- A strict call gives what the lenient one gives if no unit fails. Otherwise it returns the
document as it was and tells the first error and failure of the lenient call. -/
theorem strict_agrees_with_lenient (options : Options) (content : Text) :
    (∀ blocks : List EditBlock, Outcome.Agree
      (EditBlock.applyAll { options with strict := true } content blocks).value
      (EditBlock.applyAll { options with strict := false } content blocks).value content) ∧
    (∀ (hunks : List Hunk) (warnings : List Warning), Outcome.Agree
      (Hunk.applyAll { options with strict := true } content hunks warnings).value
      (Hunk.applyAll { options with strict := false } content hunks warnings).value content) := by
  constructor
  · intro blocks
    exact Batch.apply_agree (EditBlock.batch_keepsNumbers options _) options.telemetry content
      content.unifyEndings [] blocks
  · intro hunks warnings
    exact Batch.apply_agree (Hunk.batch_keepsNumbers options _) options.telemetry content
      (HunkState.ofContent content.unifyEndings) warnings hunks

end Emend
