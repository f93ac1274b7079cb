import Emend.Proofs.BatchRun

/-!
# The account of a call

Every call accounts for each of its units: the placed and the failed ones add up, a lenient call
reports the failed ones and records the placed ones in the order of the edit, and a strict call
either places all of them or takes everything back.

The invariant of a run is `Tally.Accounts`: a tally counts its failures, and these and the placed
units are complementary parts of the numbers of the units attempted so far. Each of the two ways a
tally grows keeps it (`Tally.Accounts.place`, `Tally.Accounts.fail`), hence so does a run
(`run_accounts`), for blocks and hunks alike. A strict run carries an empty list of failures along,
so that the account of one that is finished has no failed part.
-/

namespace Emend

/-- Two lists are complementary parts of a third: each of its members goes to one of them, in
order. -/
inductive Complementary {α : Type} : List α → List α → List α → Prop
  /-- An empty list has empty parts. -/
  | nil : Complementary [] [] []
  /-- The first member goes to the first part. -/
  | left {x : α} {xs ys zs : List α} :
    Complementary xs ys zs → Complementary (x :: xs) ys (x :: zs)
  /-- The first member goes to the second part. -/
  | right {x : α} {xs ys zs : List α} :
    Complementary xs ys zs → Complementary xs (x :: ys) (x :: zs)

namespace Complementary

variable {α : Type} {xs ys zs : List α}

/-- A new last member may go to the end of the first part. -/
theorem concat_left (h : Complementary xs ys zs) (x : α) :
    Complementary (xs ++ [x]) ys (zs ++ [x]) := by
  induction h with
  | nil => exact .left .nil
  | left _ ih => exact .left ih
  | right _ ih => exact .right ih

/-- A new last member may go to the end of the second part. -/
theorem concat_right (h : Complementary xs ys zs) (x : α) :
    Complementary xs (ys ++ [x]) (zs ++ [x]) := by
  induction h with
  | nil => exact .right .nil
  | left _ ih => exact .left ih
  | right _ ih => exact .right ih

/-- The parts of a list have as many members as the list. -/
theorem length_add_length (h : Complementary xs ys zs) : xs.length + ys.length = zs.length := by
  induction h with
  | nil => rfl
  | left _ ih =>
    rw [List.length_cons, List.length_cons]
    omega
  | right _ ih =>
    rw [List.length_cons, List.length_cons]
    omega

/-- If one part is empty the other is the whole list. -/
theorem eq_of_left_nil (h : Complementary [] ys zs) : ys = zs := by
  generalize hx : ([] : List α) = xs at h
  induction h with
  | nil => rfl
  | left => cases hx
  | right _ ih => rw [ih hx]

end Complementary

/-! ## Tallies -/

/-- A tally accounts for the units of the given numbers: each of them was placed or failed, and it
was reported or, with telemetry, recorded in its turn. -/
structure Tally.Accounts (t : Tally) (telemetry : Bool) (numbers : List Int) : Prop where
  /-- The failures are counted. -/
  failed : t.failed = t.failures.length
  /-- Each failure has an error. -/
  errors : t.errors.length = t.failures.length
  /-- The failures and the placed units are complementary parts of the units. -/
  parts : ∃ placed, Complementary (t.failures.map FailedUnit.index) placed numbers ∧
    t.applied = placed.length ∧
    t.records.map MatchRecord.index = if telemetry then placed else []

namespace Tally.Accounts

variable {σ : Type} {t : Tally} {telemetry : Bool} {numbers : List Int}

/-- A tally of nothing accounts for no units. -/
theorem initial (warnings : List Warning) (telemetry : Bool) :
    (Tally.initial warnings).Accounts telemetry [] :=
  ⟨rfl, rfl, [], .nil, rfl, by cases telemetry <;> rfl⟩

/-- A placed unit is accounted for. -/
theorem place (h : t.Accounts telemetry numbers) (p : Placement σ) :
    (t.place telemetry p).Accounts telemetry (numbers ++ [p.record.index]) := by
  obtain ⟨hfailed, herrors, placed, hparts, happlied, hrecords⟩ := h
  refine ⟨hfailed, herrors, placed ++ [p.record.index], hparts.concat_right _, ?_, ?_⟩
  · rw [List.length_append, ← happlied]
    rfl
  · -- Without telemetry no record is kept.
    cases telemetry with
    | false => exact hrecords
    | true =>
      have hplaced : t.records.map MatchRecord.index = placed := hrecords
      have hkept : (t.place true p).records = t.records ++ [p.record] := rfl
      rw [hkept, List.map_append, hplaced]
      rfl

/-- A failed unit is accounted for. -/
theorem fail (h : t.Accounts telemetry numbers) (f : FailedUnit) (e : OutcomeError) :
    (t.fail f e).Accounts telemetry (numbers ++ [f.index]) := by
  obtain ⟨hfailed, herrors, placed, hparts, happlied, hrecords⟩ := h
  have hfailures : (t.fail f e).failures = t.failures ++ [f] := rfl
  refine ⟨?_, ?_, placed, ?_, happlied, hrecords⟩
  · rw [hfailures, List.length_append, ← hfailed]
    rfl
  · rw [hfailures, List.length_append, ← herrors]
    exact List.length_append
  · rw [hfailures, List.map_append]
    exact hparts.concat_left f.index

end Tally.Accounts

/-! ## Runs -/

/-- How a run over the units of the given numbers may end. -/
def Ending.Accounts {σ : Type} (strict telemetry : Bool) (numbers : List Int) : Ending σ → Prop
  | .finished _ t => t.Accounts telemetry numbers ∧ (strict = true → t.failures = [])
  | .aborted f _ _ => strict = true ∧ f.index ∈ numbers

/-- A run that starts from an account of the units before it ends with an account of all units, and
if it is strict and had no failure it stops at the first one. -/
theorem Batch.run_accounts {υ σ : Type} {b : Batch υ σ} (hb : b.KeepsNumbers)
    {strict telemetry : Bool} (units : List υ) (s : σ) (t : Tally) (done : List Int)
    (ht : t.Accounts telemetry done) (hstrict : strict = true → t.failures = []) :
    (b.run strict telemetry s t units).value.Accounts strict telemetry
      (done ++ units.map b.index) := by
  induction units generalizing s t done with
  | nil =>
    rw [run_nil, List.map_nil, List.append_nil]
    exact ⟨ht, hstrict⟩
  | cons u units ih =>
    -- The first unit moves from the units to come to the units done.
    have hmoved : done ++ (u :: units).map b.index = done ++ [b.index u] ++ units.map b.index := by
      rw [List.map_cons, List.append_assoc]
      rfl
    rw [hmoved]
    cases h : (b.attempt s u).value with
    | placed p =>
      rw [run_of_placed h, ← hb.placed s u p h]
      exact ih p.next (t.place telemetry p) _ (ht.place p) hstrict
    | failed f e =>
      rw [← hb.failed s u f e h]
      cases strict with
      | false =>
        rw [run_of_failed h]
        exact ih s (t.fail f e) _ (ht.fail f e) (fun hs => by cases hs)
      | true =>
        rw [run_of_aborted h]
        exact ⟨rfl, by simp⟩

/-! ## Outcomes -/

/-- The account that an outcome gives of the units of the given numbers, which were applied to a
document in the given mode. -/
structure Outcome.Accounts (o : Outcome) (strict telemetry : Bool) (content : Text)
    (numbers : List Int) : Prop where
  /-- The outcome counts all units. -/
  total : o.total = numbers.length
  /-- Each unit was applied or failed. -/
  sum : o.applied + o.failed = o.total
  /-- Each failed unit is reported once. -/
  failures : o.failures.length = o.failed
  /-- A document to which nothing was applied is returned as it was. -/
  untouched : o.applied = 0 → o.content = content
  /-- A lenient call has an error for each failed unit, and the failed and the applied units are
  complementary parts of the units, of which telemetry records the applied ones. -/
  lenient : strict = false → o.errors.length = o.failed ∧
    ∃ placed, Complementary (o.failures.map FailedUnit.index) placed numbers ∧
      o.records.map MatchRecord.index = if telemetry then placed else []
  /-- A strict call applies every unit, or none of them: then every unit is reported as failed. -/
  strict : strict = true →
    (o.applied = o.total ∧ o.errors = [] ∧ o.failures = [] ∧
      o.records.map MatchRecord.index = if telemetry then numbers else []) ∨
    (o.applied = 0 ∧ o.failures.map FailedUnit.index = numbers ∧ o.records = [] ∧
      o.content = content)

/-- A unit keeps its number when it is reported as undone, if the failed unit keeps its own. -/
theorem Batch.undone_index {υ σ : Type} (b : Batch υ σ) (f : FailedUnit) (n : Int) :
    (b.undone f f.index n).index = n := by
  unfold undone
  split
  · next h => exact h.symm
  · split <;> rfl

/-- The outcome of a run that accounts for the units accounts for them. -/
theorem Batch.outcome_accounts {υ σ : Type} (b : Batch υ σ) {strict telemetry : Bool}
    (content : Text) (units : List υ) {ending : Ending σ}
    (h : ending.Accounts strict telemetry (units.map b.index)) :
    (b.outcome content units ending).Accounts strict telemetry content (units.map b.index) := by
  cases ending with
  | finished s t =>
    obtain ⟨⟨hfailed, herrors, placed, hparts, happlied, hrecords⟩, hstrict⟩ := h
    -- The parts of the units are as many as the units.
    have hsum : t.applied + t.failed = units.length := by
      have hlength := hparts.length_add_length
      rw [List.length_map, List.length_map, ← happlied, ← hfailed] at hlength
      omega
    refine ⟨(List.length_map _).symm, hsum, hfailed.symm, fun h0 => if_pos h0, fun _ => ?_,
      fun hs => ?_⟩
    · exact ⟨herrors.trans hfailed.symm, placed, hparts, hrecords⟩
    · -- Without failures all units are in the other part.
      have hnone := hstrict hs
      rw [hnone] at hparts hfailed herrors
      rw [hfailed] at hsum
      refine .inl ⟨hsum, List.eq_nil_of_length_eq_zero herrors, hnone, ?_⟩
      rw [← hparts.eq_of_left_nil]
      exact hrecords
  | aborted f e t =>
    obtain ⟨hs, -⟩ := h
    -- Each unit is reported under its own number.
    have hundone : ((units.map b.index).map (b.undone f f.index)).map FailedUnit.index =
        units.map b.index := by
      have hid : FailedUnit.index ∘ b.undone f f.index = id := funext (b.undone_index f)
      rw [List.map_map, hid, List.map_id]
    refine ⟨(List.length_map _).symm, Nat.zero_add _, ?_, fun _ => rfl, fun hl => ?_, fun _ => ?_⟩
    · rw [← List.length_map FailedUnit.index]
      exact (congrArg List.length hundone).trans (List.length_map _)
    · rw [hs] at hl
      cases hl
    · exact .inr ⟨rfl, hundone, rfl, rfl⟩

/-- The outcome of a batch accounts for its units. -/
theorem Batch.apply_accounts {υ σ : Type} {b : Batch υ σ} (hb : b.KeepsNumbers)
    (strict telemetry : Bool) (content : Text) (start : σ) (warnings : List Warning)
    (units : List υ) :
    (b.apply strict telemetry content start warnings units).value.Accounts strict telemetry content
      (units.map b.index) := by
  rw [apply_value]
  apply b.outcome_accounts
  exact run_accounts hb units start _ [] (.initial warnings telemetry) fun _ => rfl

/-- Every call accounts for its units, be they blocks or hunks, whatever their numbers: they were
applied or failed, in order, and a call that applied none of them returns the document as it was. -/
theorem applyAll_accounts (options : Options) (content : Text) :
    (∀ blocks : List EditBlock, (EditBlock.applyAll options content blocks).value.Accounts
      options.strict options.telemetry content (blocks.map EditBlock.index)) ∧
    (∀ (hunks : List Hunk) (warnings : List Warning),
      (Hunk.applyAll options content hunks warnings).value.Accounts
        options.strict options.telemetry content (hunks.map Hunk.index)) := by
  constructor
  · intro blocks
    exact Batch.apply_accounts (EditBlock.batch_keepsNumbers options _) _ _ _ _ _ _
  · intro hunks warnings
    exact Batch.apply_accounts (Hunk.batch_keepsNumbers options _) _ _ _ _ _ _

end Emend
