import Emend.Apply.Edit
import Emend.Proofs.Surgery
import Mathlib.Algebra.BigOperators.Group.List.Basic
import Mathlib.Algebra.Ring.Int.Defs

/-!
# The drift of numbered hunks

A numbered hunk is expected at the line that it declares, moved by an offset. After a run the offset
comes from the hunks that were applied, one after another (`offset_of_run`): a hunk that stands at
its expected line adds its growth to the offset (`offset_put`), but one that is placed by its new
side starts the offset anew, from its own growth. So the offset is the growth of all applied hunks
if and only if those before the last hunk that is placed by its new side have no growth in all
(`expectedLine_eq_iff`).
-/

namespace Emend

/-- The units that a run places, each with the state that it meets. -/
def Batch.placed {υ σ : Type} (b : Batch υ σ) : σ → List υ → List (σ × υ)
  | _, [] => []
  | s, u :: units =>
    match (b.attempt s u).value with
    | .placed p => (s, u) :: placed b p.next units
    | .failed _ _ => placed b s units

/-- What a run places is placed in the state that it meets. -/
theorem Batch.exists_placement_of_mem_placed {υ σ : Type} {b : Batch υ σ} {s : σ} {units : List υ}
    {x : σ × υ} (hx : x ∈ b.placed s units) : ∃ p, (b.attempt x.1 x.2).value = .placed p := by
  induction units generalizing s with
  | nil => cases hx
  | cons u units ih =>
    unfold placed at hx
    cases hu : (b.attempt s u).value with
    | placed p =>
      rw [hu] at hx
      obtain rfl | hx := List.mem_cons.mp hx
      · exact ⟨p, hu⟩
      · exact ih hx
    | failed f e =>
      rw [hu] at hx
      exact ih hx

namespace Hunk

/-- By how many lines a hunk makes a document longer. -/
def growth (h : Hunk) : Int :=
  (h.lines.countP (·.kind = .add) : Int) - h.lines.countP (·.kind = .remove)

/-- By how many lines hunks make a document longer in all. -/
def growthOf (hunks : List Hunk) : Int := (hunks.map growth).sum

/-- A hunk without old lines that stands before the first line is placed by its new side. -/
def StandsByNewSide (h : Hunk) : Prop :=
  h.oldStart = some 0 ∧ h.oldCount = 0 ∧ h.newStart.getD 0 ≠ 0

instance (h : Hunk) : Decidable h.StandsByNewSide :=
  inferInstanceAs (Decidable (_ ∧ _ ∧ _))

/-- If a hunk is put anywhere in a state, that is the line where it is expected. -/
def LandsAsExpected (maxFuzz : Nat) (s : HunkState) (h : Hunk) : Prop :=
  ∀ a ∈ (Anchor.find s.lines h (h.expectedLine s.offset s.cursor) maxFuzz).value,
    (a.position : Int) = h.expectedLine s.offset s.cursor

instance (maxFuzz : Nat) (s : HunkState) (h : Hunk) : Decidable (LandsAsExpected maxFuzz s h) :=
  inferInstanceAs (Decidable (∀ a ∈ (Anchor.find _ _ _ _).value, _))

/-- The offset after hunks that all stand where they are expected. -/
def offsetAfter (offset : Int) (hunks : List Hunk) : Int :=
  hunks.foldl (fun offset h => if h.StandsByNewSide then h.growth else offset + h.growth) offset

/-! ## One hunk -/

/-- What the lines of a hunk make of a region is longer than the region by the growth. -/
theorem length_of_turns {ls : List HunkLine} {region new : List Text} (h : Turns ls region new) :
    new.length + ls.countP (·.kind = .remove) = region.length + ls.countP (·.kind = .add) := by
  induction h with
  | nil => rfl
  | context _ _ _ ih =>
    simp only [List.length_cons, List.countP_cons, reduceCtorEq, decide_false, Bool.false_eq_true,
      if_false]
    omega
  | remove _ _ ih =>
    simp only [List.length_cons, List.countP_cons, reduceCtorEq, decide_false, decide_true, if_true,
      Bool.false_eq_true, if_false]
    omega
  | add _ _ ih =>
    simp only [List.length_cons, List.countP_cons, reduceCtorEq, decide_false, decide_true, if_true,
      Bool.false_eq_true, if_false]
    omega

/-- A hunk that is placed by its new side is expected there whatever the offset is, and any other
numbered one is moved by the offset. -/
theorem expectedLine_eq {h : Hunk} (hnumbered : h.isNumbered = true) (offset : Int) (cursor : Nat) :
    h.expectedLine offset cursor =
      if h.StandsByNewSide then h.expectedLine 0 0 else h.expectedLine 0 0 + offset := by
  obtain ⟨start, hstart⟩ := Option.isSome_iff_exists.mp hnumbered
  unfold expectedLine StandsByNewSide
  simp only [hstart, Option.some.injEq]
  split_ifs <;> omega

/-- A hunk that stands where it is expected adds its growth to the offset, unless it is placed by
its new side. -/
theorem offset_put {h : Hunk} {s : HunkState} {a : Anchor} {maxFuzz : Nat}
    (hnumbered : h.isNumbered = true) (hfits : FitsAt s.lines h.oldSide maxFuzz a.position)
    (hposition : (a.position : Int) = h.expectedLine s.offset s.cursor) :
    (h.put s a).offset = offsetAfter s.offset [h] := by
  -- The region has as many lines as the old side, so that it becomes longer by the growth.
  obtain ⟨hlength, hturns⟩ := turns_rebuild hfits
  have hnew := length_of_turns hturns
  have hgrowth : ((h.rebuild ((s.lines.drop a.position).take h.oldLines.length)
      a.level.isLoose).length : Int) - h.oldLines.length = h.growth := by
    unfold growth
    omega
  have hoffset : (h.put s a).offset = ((a.position : Int) - h.expectedLine 0 0) +
      ((h.rebuild ((s.lines.drop a.position).take h.oldLines.length) a.level.isLoose).length -
        h.oldLines.length) := if_pos hnumbered
  rw [expectedLine_eq hnumbered] at hposition
  by_cases hside : h.StandsByNewSide
  · -- It stands where it declares whatever the offset was, which is overwritten.
    have hafter : offsetAfter s.offset [h] = h.growth := if_pos hside
    rw [if_pos hside] at hposition
    omega
  · have hafter : offsetAfter s.offset [h] = s.offset + h.growth := if_neg hside
    rw [if_neg hside] at hposition
    omega

/-! ## Runs -/

/-- After a run in which all hunks stand where they are expected the offset comes from these. -/
theorem offset_of_run {options : Options} {ending : LineEnding} {strict telemetry : Bool}
    {hunks : List Hunk} {s s' : HunkState} {t t' : Tally}
    (hnumbered : ∀ g ∈ hunks, g.isNumbered = true)
    (hlanded : ∀ x ∈ (batch options ending).placed s hunks, LandsAsExpected options.maxFuzz x.1 x.2)
    (hrun : ((batch options ending).run strict telemetry s t hunks).value = .finished s' t') :
    s'.offset = offsetAfter s.offset (((batch options ending).placed s hunks).map Prod.snd) := by
  -- The state changes with each hunk that is placed, and only with such a hunk.
  induction hunks generalizing s t with
  | nil =>
    rw [Batch.run_nil] at hrun
    cases hrun
    rfl
  | cons g hunks ih =>
    obtain ⟨hfirst, hrest⟩ := List.forall_mem_cons.mp hnumbered
    unfold Batch.placed at hlanded ⊢
    cases hg : ((batch options ending).attempt s g).value with
    | placed p =>
      rw [hg] at hlanded
      obtain ⟨hland, hlanded⟩ := List.forall_mem_cons.mp hlanded
      rw [Batch.run_of_placed hg] at hrun
      obtain ⟨a, -, ha, rfl⟩ := placement_of_attempt hg
      have hput := offset_put hfirst (Anchor.fitsAt_of_find ha) (hland a ha)
      exact (ih hrest hlanded hrun).trans (congrArg (offsetAfter · _) hput)
    | failed f e =>
      rw [hg] at hlanded
      cases strict with
      | false =>
        rw [Batch.run_of_failed hg] at hrun
        exact ih hrest hlanded hrun
      | true =>
        rw [Batch.run_of_aborted hg] at hrun
        cases hrun

section Offset

variable {offset : Int} {hunks earlier later : List Hunk} {g : Hunk}

/-- Without a hunk that is placed by its new side all growth is in the offset. -/
theorem offsetAfter_of_forall (h : ∀ g ∈ hunks, ¬g.StandsByNewSide) :
    offsetAfter offset hunks = offset + growthOf hunks := by
  induction hunks generalizing offset with
  | nil => exact (Int.add_zero offset).symm
  | cons g hunks ih =>
    obtain ⟨hfirst, hrest⟩ := List.forall_mem_cons.mp h
    have hstep : offsetAfter offset (g :: hunks) = offsetAfter (offset + g.growth) hunks :=
      congrArg (offsetAfter · hunks) (if_neg hfirst)
    rw [hstep, ih hrest, growthOf, growthOf, List.map_cons, List.sum_cons, Int.add_assoc]

/-- A hunk that is placed by its new side makes the offset forget what was before. -/
theorem offsetAfter_of_last (hg : g.StandsByNewSide) (hlater : ∀ k ∈ later, ¬k.StandsByNewSide) :
    offsetAfter offset (earlier ++ g :: later) = g.growth + growthOf later := by
  have hstep : offsetAfter offset (earlier ++ g :: later) = offsetAfter g.growth later := by
    unfold offsetAfter
    rw [List.foldl_append, List.foldl_cons, if_pos hg]
  rw [hstep, offsetAfter_of_forall hlater]

theorem growthOf_append_cons (earlier later : List Hunk) (g : Hunk) :
    growthOf (earlier ++ g :: later) = growthOf earlier + (g.growth + growthOf later) := by
  unfold growthOf
  rw [List.map_append, List.sum_append, List.map_cons, List.sum_cons]

/-- Of the hunks that are placed by their new side one is the last. -/
theorem exists_last (h : ¬∀ g ∈ hunks, ¬g.StandsByNewSide) :
    ∃ earlier g later, hunks = earlier ++ g :: later ∧ g.StandsByNewSide ∧
      ∀ k ∈ later, ¬k.StandsByNewSide := by
  induction hunks with
  | nil => exact absurd (List.forall_mem_nil _) h
  | cons g hunks ih =>
    -- The first hunk is the last one of them only if there is none after it.
    by_cases hrest : ∀ k ∈ hunks, ¬k.StandsByNewSide
    · have hg : g.StandsByNewSide := by
        by_contra hg
        exact h (List.forall_mem_cons.mpr ⟨hg, hrest⟩)
      exact ⟨[], g, hunks, rfl, hg, hrest⟩
    · obtain ⟨earlier, k, later, rfl, hk, hlater⟩ := ih hrest
      exact ⟨g :: earlier, k, later, rfl, hk, hlater⟩

/-- The offset is the growth of all hunks if and only if those before the last one that is placed by
its new side have no growth in all. -/
theorem offsetAfter_eq_growthOf_iff : offsetAfter 0 hunks = growthOf hunks ↔
    ∀ earlier g later, hunks = earlier ++ g :: later → g.StandsByNewSide →
      (∀ k ∈ later, ¬k.StandsByNewSide) → growthOf earlier = 0 := by
  constructor
  · rintro h earlier g later rfl hg hlater
    rw [offsetAfter_of_last hg hlater, growthOf_append_cons] at h
    omega
  · intro h
    by_cases hnone : ∀ g ∈ hunks, ¬g.StandsByNewSide
    · rw [offsetAfter_of_forall hnone, Int.zero_add]
    · obtain ⟨earlier, g, later, rfl, hg, hlater⟩ := exists_last hnone
      rw [offsetAfter_of_last hg hlater, growthOf_append_cons, h earlier g later rfl hg hlater,
        Int.zero_add]

end Offset

/-- After numbered hunks that all stand where they are expected, the next one is expected at the
line that it declares, moved by the growth of all hunks that were applied, if and only if those of
them before the last one that is placed by its new side have no growth in all. -/
theorem expectedLine_eq_iff (options : Options) (content : Text) (warnings : List Warning)
    {hunks before after : List Hunk} {h : Hunk} {start : Int}
    (hhunks : hunks = before ++ h :: after) (hnumbered : ∀ g ∈ hunks, g.isNumbered = true)
    {s : HunkState} {t : Tally}
    (hrun : ((batch options content.dominantEnding).run options.strict options.telemetry
      (HunkState.ofContent content.unifyEndings) (.initial warnings) before).value =
        .finished s t)
    (hlanded : ∀ x ∈ (batch options content.dominantEnding).placed
      (HunkState.ofContent content.unifyEndings) before, LandsAsExpected options.maxFuzz x.1 x.2)
    (hstart : h.oldStart = some start) (hcount : 0 < h.oldCount) :
    let applied := ((batch options content.dominantEnding).placed
      (HunkState.ofContent content.unifyEndings) before).map Prod.snd
    h.expectedLine s.offset s.cursor = max 0 (start - 1) + growthOf applied ↔
      ∀ earlier g later, applied = earlier ++ g :: later → g.StandsByNewSide →
        (∀ k ∈ later, ¬k.StandsByNewSide) → growthOf earlier = 0 := by
  intro applied
  rw [hhunks] at hnumbered
  have hoffset := offset_of_run (List.forall_mem_append.mp hnumbered).1 hlanded hrun
  have hexpected : h.expectedLine s.offset s.cursor = max 0 (start - 1) + s.offset := by
    unfold expectedLine declaredLine
    rw [hstart]
    dsimp only
    rw [if_neg (by omega), if_pos hcount]
  have hzero : (HunkState.ofContent content.unifyEndings).offset = 0 := rfl
  rw [hexpected, hoffset, hzero, ← offsetAfter_eq_growthOf_iff]
  exact Int.add_right_inj _

/-- Lines that are the same but for the first one. -/
def repeatedLines : Text := "a\nx\nx\nx\n".toList

/-- A hunk that puts in a line, which becomes the first one. -/
def firstInsertion : Hunk :=
  ⟨0, some 0, 0, some 1, 1, [⟨.add, "n".toList⟩], "@@ -0,0 +1 @@".toList, false, false⟩

/-- A hunk that puts in a line, which becomes the third one. -/
def thirdInsertion : Hunk :=
  ⟨1, some 0, 0, some 3, 1, [⟨.add, "m".toList⟩], "@@ -0,0 +3 @@".toList, false, false⟩

/-- A hunk that makes two lines of the first one. -/
def firstChange : Hunk :=
  ⟨1, some 1, 1, some 2, 2, [⟨.context, "a".toList⟩, ⟨.add, "m".toList⟩], "@@ -1 +2,2 @@".toList,
    false, false⟩

/-- A hunk that changes the third line. -/
def thirdChange : Hunk :=
  ⟨2, some 3, 1, some 5, 1, [⟨.remove, "x".toList⟩, ⟨.add, "Y".toList⟩], "@@ -3 +5 @@".toList,
    false, false⟩

/-- Nothing grew before the only hunk that is placed by its new side, and the growth of both hunks
is met. -/
theorem expectedLine_eq_iff_firstChange :
    (∀ g ∈ [firstInsertion, firstChange, thirdChange], g.isNumbered = true) ∧
    (∀ x ∈ (batch .default repeatedLines.dominantEnding).placed
      (HunkState.ofContent repeatedLines.unifyEndings) [firstInsertion, firstChange],
        LandsAsExpected Options.default.maxFuzz x.1 x.2) ∧
    ∃ s t, ((batch .default repeatedLines.dominantEnding).run Options.default.strict
        Options.default.telemetry (HunkState.ofContent repeatedLines.unifyEndings) (.initial [])
        [firstInsertion, firstChange]).value = .finished s t ∧
      thirdChange.expectedLine s.offset s.cursor =
        max 0 (3 - 1) + growthOf [firstInsertion, firstChange] := by
  have hnumbered : ∀ g ∈ [firstInsertion, firstChange, thirdChange], g.isNumbered = true := by
    decide
  have hlanded : ∀ x ∈ (batch .default repeatedLines.dominantEnding).placed
      (HunkState.ofContent repeatedLines.unifyEndings) [firstInsertion, firstChange],
        LandsAsExpected Options.default.maxFuzz x.1 x.2 := by decide +kernel
  refine ⟨hnumbered, hlanded, _, _, rfl, ?_⟩
  exact (expectedLine_eq_iff .default repeatedLines [] rfl hnumbered rfl hlanded rfl
    (by decide)).mpr (offsetAfter_eq_growthOf_iff.mp (by decide +kernel))

end Hunk

namespace Edit

/-- A hunk that is placed by its new side makes the next hunk miss the growth of the one before it:
the first of the repeated lines is changed, which is the second line, and not the third line. -/
theorem applyHunks_forgetsDrift :
    (∀ g ∈ [Hunk.firstInsertion, Hunk.thirdInsertion, Hunk.thirdChange], g.isNumbered = true) ∧
    (∀ x ∈ (Hunk.batch .default Hunk.repeatedLines.dominantEnding).placed
      (HunkState.ofContent Hunk.repeatedLines.unifyEndings)
      [Hunk.firstInsertion, Hunk.thirdInsertion],
        Hunk.LandsAsExpected Options.default.maxFuzz x.1 x.2) ∧
    (∃ s t, ((Hunk.batch .default Hunk.repeatedLines.dominantEnding).run Options.default.strict
        Options.default.telemetry (HunkState.ofContent Hunk.repeatedLines.unifyEndings)
        (.initial []) [Hunk.firstInsertion, Hunk.thirdInsertion]).value = .finished s t ∧
      Hunk.thirdChange.expectedLine s.offset s.cursor = 3 ∧
      max 0 (3 - 1) + Hunk.growthOf [Hunk.firstInsertion, Hunk.thirdInsertion] = 4) ∧
    ∃ o, (applyHunks Hunk.repeatedLines
        "@@ -0,0 +1 @@\n+n\n@@ -0,0 +3 @@\n+m\n@@ -3 +5 @@\n-x\n+Y\n".toList
        (.ok .default)).value = .ok o ∧
      o.applied = 3 ∧ o.content = "n\na\nm\nY\nx\nx\n".toList := by
  exact ⟨by decide, by decide +kernel, ⟨_, _, rfl, by decide, by decide⟩, _, rfl,
    by decide +kernel, by decide +kernel⟩

end Edit

end Emend
