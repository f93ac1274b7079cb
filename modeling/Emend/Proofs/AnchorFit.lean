import Emend.Hunk.Anchor
import Mathlib.Data.List.Count
import Mathlib.Data.List.Forall2

/-!
# How an anchored hunk fits the lines

Whatever way the anchor search takes to a place, the old side of the hunk fits the lines there
(`FitsAt`): it lies within the document, its removed lines stand there up to the spaces around them,
no more context lines differ than fuzz allows, and at least one line is the same. A place is one of
those that a level tries (`le_of_mem_middleOut`), a level counts the lines that do not fit it
(`beside_of_mismatches?`), and what fits a level is the same up to outer spaces
(`AnchorLevel.strip_eq_of_fits`). The loose shortcut at the expected line and the levels are then
the same case (`fitsAt_of_mismatches?`), from which `fitsAt_of_find` goes through the search.
-/

namespace Emend

/-! ## Places -/

theorem clampPlace_le (expected : Int) (last : Nat) : clampPlace expected last ≤ last :=
  Nat.min_le_right expected.toNat last

/-- No place around a start is after the last one. -/
theorem le_of_mem_middleOut {start last place : Nat} (hstart : start ≤ last)
    (h : place ∈ middleOut start last) : place ≤ last := by
  rcases List.mem_cons.mp h with rfl | h
  · exact hstart
  · -- A place below the start is before it, and one above it is checked.
    obtain ⟨i, -, hi⟩ := List.mem_flatMap.mp h
    rcases List.mem_append.mp hi with hi | hi
    · split at hi
      · rw [List.mem_singleton] at hi
        omega
      · cases hi
    · split at hi
      · rw [List.mem_singleton] at hi
        omega
      · cases hi

/-! ## Lines -/

/-- A line that fits at some level is the same up to the spaces around it. -/
theorem AnchorLevel.strip_eq_of_fits {level : AnchorLevel} {line wanted : Text}
    (h : level.fits line wanted = true) : line.strip = wanted.strip := by
  have hloose : (line == wanted || line.strip == wanted.strip) = true →
      line.strip = wanted.strip := by
    intro h
    rcases Bool.or_eq_true_iff.mp h with h | h
    · rw [beq_iff_eq.mp h]
    · exact beq_iff_eq.mp h
  cases level with
  | declaredPosition => rw [beq_iff_eq.mp h]
  | exact => rw [beq_iff_eq.mp h]
  | loose => exact hloose h
  | fuzz _ => exact hloose h

/-- No level allows more lines to differ than there is fuzz. -/
theorem AnchorLevel.allowance_le_of_mem_levels {level : AnchorLevel} {maxFuzz contextCount : Nat}
    (h : level ∈ AnchorLevel.levels maxFuzz contextCount) : level.allowance ≤ maxFuzz := by
  rw [levels, List.mem_cons, List.mem_cons, List.mem_map] at h
  rcases h with rfl | rfl | ⟨i, hi, rfl⟩
  · exact Nat.zero_le maxFuzz
  · exact Nat.zero_le maxFuzz
  · rw [List.mem_range] at hi
    rw [allowance]
    omega

section Scan

variable {fits : Text → Text → Bool} {side : List HunkLine} {lines : List Text} {bad : Nat}

/-- The scan meets each line of the old side with a line of the document: removed lines have to fit,
and the context lines that do not are counted. -/
theorem mismatches?_eq_some_iff : mismatches? fits side lines = some bad ↔
    List.Forall₂ (fun l line => l.kind = .remove → fits line l.text = true) side
        (lines.take side.length) ∧
      ((side.zip (lines.take side.length)).countP fun p => !fits p.2 p.1.text) = bad := by
  induction side generalizing lines bad with
  | nil => exact ⟨fun h => ⟨.nil, Option.some.inj h⟩, fun h => congrArg some h.2⟩
  | cons l side ih =>
    cases lines with
    | nil => exact ⟨fun h => (by cases h), fun h => (by cases h.1)⟩
    | cons t lines =>
      -- The count goes up by the first line if that does not fit.
      rw [mismatches?, List.length_cons, List.take_succ_cons, List.zip_cons_cons, List.countP_cons,
        List.forall₂_cons]
      by_cases hfits : fits t l.text = true
      · rw [if_pos hfits, ih]
        simp [hfits]
      · rw [if_neg hfits]
        by_cases hkind : l.kind = .remove
        · simp [hkind, hfits]
        · rw [if_neg hkind, Option.map_eq_some_iff]
          simp only [ih]
          simp [hkind, hfits]

/-- No line is counted where all lines fit. -/
theorem mismatches?_eq_zero_iff : mismatches? fits side lines = some 0 ↔
    List.Forall₂ (fun l line => fits line l.text = true) side (lines.take side.length) := by
  induction side generalizing lines with
  | nil => exact ⟨fun _ => .nil, fun _ => rfl⟩
  | cons l side ih =>
    cases lines with
    | nil => exact ⟨fun h => (by cases h), fun h => (by cases h)⟩
    | cons t lines =>
      rw [mismatches?, List.length_cons, List.take_succ_cons, List.forall₂_cons]
      by_cases hfits : fits t l.text = true
      · rw [if_pos hfits, ih, and_iff_right hfits]
      · rw [if_neg hfits]
        refine ⟨fun h => ?_, fun h => absurd h.1 hfits⟩
        split_ifs at h
        obtain ⟨n, -, hn⟩ := Option.map_eq_some_iff.mp h
        omega

end Scan

/-- Whether a line of a document may stand beside a line of an old side: a removed line has to be
the same up to the spaces around it. -/
def HunkLine.Allows (l : HunkLine) (line : Text) : Prop :=
  l.kind = .remove → line.strip = l.text.strip

/-- How many lines of a region differ, by more than the spaces around them, from the lines of an old
side that they stand beside. -/
def differing (side : List HunkLine) (region : List Text) : Nat :=
  (side.zip region).countP fun p => p.2.strip != p.1.text.strip

/-- Lines of which a level does not fit so many stand beside an old side, and no more differ. -/
theorem beside_of_mismatches? {level : AnchorLevel} {side : List HunkLine} {lines : List Text}
    {bad : Nat} (h : mismatches? level.fits side lines = some bad) :
    List.Forall₂ HunkLine.Allows side (lines.take side.length) ∧
      differing side (lines.take side.length) ≤ bad := by
  obtain ⟨hbeside, hcount⟩ := mismatches?_eq_some_iff.mp h
  refine ⟨hbeside.imp fun _ _ hfits hremove => AnchorLevel.strip_eq_of_fits (hfits hremove), ?_⟩
  -- A line that differs does not fit.
  refine Nat.le_trans (List.countP_mono_left fun p _ hdiffers => ?_) (Nat.le_of_eq hcount)
  rw [Bool.not_eq_true', Bool.eq_false_iff]
  exact fun hfits => bne_iff_ne.mp hdiffers (AnchorLevel.strip_eq_of_fits hfits)

/-- If not all lines differ, one is the same. -/
theorem exists_same_of_differing_lt {side : List HunkLine} {region : List Text}
    (hsize : region.length = side.length) (h : differing side region < side.length) :
    ∃ p ∈ side.zip region, p.2.strip = p.1.text.strip := by
  have hzip : (side.zip region).length = side.length := by
    rw [List.length_zip, hsize, Nat.min_self]
  rw [differing, ← hzip, List.countP_lt_length_iff] at h
  obtain ⟨p, hp, hsame⟩ := h
  exact ⟨p, hp, bne_eq_false_iff_eq.mp hsame⟩

/-- An old side stands at a place as far as fuzz allows. -/
structure FitsAt (lines : List Text) (side : List HunkLine) (maxFuzz place : Nat) : Prop where
  /-- All lines of the old side stand beside lines of the document. -/
  inside : place + side.length ≤ lines.length
  /-- Removed lines stand there. -/
  allows : List.Forall₂ HunkLine.Allows side ((lines.drop place).take side.length)
  /-- No more lines differ than there is fuzz. -/
  fuzz : differing side ((lines.drop place).take side.length) ≤ maxFuzz
  /-- A line is the same. -/
  some_fits : side ≠ [] → differing side ((lines.drop place).take side.length) < side.length

namespace Anchor

/-- The places at which an old side of so many lines is looked for, the nearest to the expected line
first. -/
def tried (lines : List Text) (size : Nat) (expected : Int) : List Nat :=
  middleOut (clampPlace expected (lines.length - size)) (lines.length - size)

/-- A level allows some of the places that are tried. -/
theorem places_eq (lines : List Text) (side : List HunkLine) (expected : Int)
    (level : AnchorLevel) : places lines side expected level =
      (tried lines side.length expected).filterMap fun place =>
        (misfits? lines side level place).map (place, ·) := rfl

variable {lines : List Text} {side : List HunkLine} {expected : Int} {level : AnchorLevel}
  {maxFuzz place bad : Nat} {a : Anchor}

/-- An old side fits where few enough of its lines do not fit a level. -/
theorem fitsAt_of_mismatches? (h : mismatches? level.fits side (lines.drop place) = some bad)
    (hfuzz : bad ≤ maxFuzz) (hsome : bad < side.length) : FitsAt lines side maxFuzz place := by
  obtain ⟨hbeside, hle⟩ := beside_of_mismatches? h
  -- As many lines stand there as the old side has.
  have hlength := hbeside.length_eq
  rw [List.length_take, List.length_drop] at hlength
  exact ⟨by omega, hbeside, Nat.le_trans hle hfuzz, fun _ => Nat.lt_of_le_of_lt hle hsome⟩

/-- What is allowed at a level fits. -/
theorem fitsAt_of_misfits? (h : misfits? lines side level place = some bad)
    (hlevel : level.allowance ≤ maxFuzz) : FitsAt lines side maxFuzz place := by
  obtain ⟨hbad, hcond⟩ := Option.filter_eq_some_iff.mp h
  rw [Bool.and_eq_true, decide_eq_true_iff, decide_eq_true_iff] at hcond
  exact fitsAt_of_mismatches? hbad (Nat.le_trans hcond.1 hlevel) hcond.2

/-- The nearest place of a level is allowed there. -/
theorem exists_misfits?_of_nearestAt (h : (nearestAt lines side expected level).value = some a) :
    ∃ bad, misfits? lines side level a.position = some bad := by
  unfold nearestAt at h
  cases hplaces : places lines side expected level with
  | nil =>
    rw [hplaces] at h
    cases h
  | cons first others =>
    obtain ⟨place, bad⟩ := first
    -- A tie or not, the place is the first one.
    have hposition : a.position = place := by
      rw [hplaces] at h
      dsimp only at h
      split_ifs at h
      all_goals
        cases h
        rfl
    have hmem : (place, bad) ∈ places lines side expected level := hplaces ▸ List.mem_cons_self
    rw [places_eq] at hmem
    obtain ⟨p, -, hp⟩ := List.mem_filterMap.mp hmem
    obtain ⟨n, hn, heq⟩ := Option.map_eq_some_iff.mp hp
    cases heq
    exact ⟨bad, hposition ▸ hn⟩

/-- The first level that has an anchor decides. -/
theorem firstLevel_cons (lines : List Text) (side : List HunkLine) (expected : Int)
    (level : AnchorLevel) (levels : List AnchorLevel) :
    (firstLevel lines side expected (level :: levels)).value =
      (nearestAt lines side expected level).value.or
        (firstLevel lines side expected levels).value := by
  rw [firstLevel, Traced.value_bind]
  cases (nearestAt lines side expected level).value <;> rfl

/-- An anchor of some levels is the nearest place of one of them. -/
theorem exists_nearestAt_of_firstLevel {levels : List AnchorLevel}
    (h : (firstLevel lines side expected levels).value = some a) :
    ∃ level ∈ levels, (nearestAt lines side expected level).value = some a := by
  induction levels with
  | nil => cases h
  | cons level levels ih =>
    rw [firstLevel_cons] at h
    rcases Option.or_eq_some_iff.mp h with hnearest | ⟨-, hrest⟩
    · exact ⟨level, List.mem_cons_self, hnearest⟩
    · obtain ⟨other, hother, hnearest⟩ := ih hrest
      exact ⟨other, List.mem_cons_of_mem level hother, hnearest⟩

/-- A hunk fits the lines at its anchor. -/
theorem fitsAt_of_find {hunk : Hunk} (h : (find lines hunk expected maxFuzz).value = some a) :
    FitsAt lines hunk.oldSide maxFuzz a.position := by
  unfold find at h
  dsimp only at h
  split_ifs at h with hempty hshort hloose
  · -- Without an old side there is nothing to fit.
    rw [List.isEmpty_iff.mp hempty]
    cases h
    exact ⟨clampPlace_le expected lines.length, .nil, Nat.zero_le _, fun hne => absurd rfl hne⟩
  · cases h
  · have hpos : 0 < hunk.oldSide.length :=
      List.length_pos_iff.mpr (mt List.isEmpty_iff.mpr hempty)
    cases h
    exact fitsAt_of_mismatches? hloose.2 (Nat.zero_le maxFuzz) hpos
  · obtain ⟨level, hlevel, hnearest⟩ := exists_nearestAt_of_firstLevel h
    obtain ⟨bad, hbad⟩ := exists_misfits?_of_nearestAt hnearest
    exact fitsAt_of_misfits? hbad (AnchorLevel.allowance_le_of_mem_levels hlevel)

end Anchor

end Emend
