import Emend.Proofs.MiddleOut

/-!
# What qualifies at a level

A level asks something of the lines that an old side stands beside (`AnchorLevel.Admits`): to be
the same, to be the same without the spaces around them, or to differ in so many context lines at
most. The scan that counts lines that do not fit (`mismatches?`) decides that
(`AnchorLevel.admits_iff`), so that the places that a level allows are those that qualify
(`Anchor.exists_misfits?_iff`). Levels are tried in the order of their rank
(`AnchorLevel.pairwise_levels`), and a place at which fewer lines differ than fuzz allows qualifies
at a level of lower rank (`Anchor.misfits?_of_fuzz`).
-/

namespace Emend

namespace AnchorLevel

/-- What a level asks of the lines that an old side stands beside. -/
def Admits (level : AnchorLevel) (side : List HunkLine) (region : List Text) : Prop :=
  match level with
  | .declaredPosition | .exact => region = side.map HunkLine.text
  | .loose => region.map Text.strip = side.map fun l => l.text.strip
  | .fuzz most => List.Forall₂ HunkLine.Allows side region ∧ differing side region ≤ most ∧
      differing side region < side.length

/-- An old side may be put at a place of a document at a level. -/
structure Qualifies (level : AnchorLevel) (lines : List Text) (side : List HunkLine)
    (place : Nat) : Prop where
  /-- The old side lies within the document. -/
  inside : place + side.length ≤ lines.length
  /-- The lines there are as the level asks. -/
  admits : level.Admits side ((lines.drop place).take side.length)

variable {side : List HunkLine} {lines region : List Text} {bad : Nat} {level : AnchorLevel}

/-- Lines stand beside an old side with equal values if the values are equal in order. -/
theorem forall₂_eq_iff_map (g : Text → Text) (f : HunkLine → Text) :
    List.Forall₂ (fun l line => g line = f l) side region ↔ region.map g = side.map f :=
  calc List.Forall₂ (fun l line => g line = f l) side region
    _ ↔ List.Forall₂ (fun line l => g line = f l) region side :=
        ⟨List.Forall₂.flip, List.Forall₂.flip⟩
    _ ↔ List.Forall₂ (fun line text => g line = text) region (side.map f) :=
        List.forall₂_map_right_iff.symm
    _ ↔ List.Forall₂ Eq (region.map g) (side.map f) := List.forall₂_map_left_iff.symm
    _ ↔ region.map g = side.map f := by rw [List.forall₂_eq_eq_eq]

theorem exact_fits_iff {line wanted : Text} :
    AnchorLevel.exact.fits line wanted = true ↔ line = wanted :=
  beq_iff_eq

/-- Lines fit loosely if they are the same without the spaces around them. -/
theorem loose_fits_iff {line wanted : Text} :
    AnchorLevel.loose.fits line wanted = true ↔ line.strip = wanted.strip := by
  refine ⟨strip_eq_of_fits, fun h => ?_⟩
  rw [fits, h, beq_self_eq_true, Bool.or_true]

/-- With fuzz lines fit as they do loosely. -/
theorem fuzz_fits (most : Nat) : (AnchorLevel.fuzz most).fits = AnchorLevel.loose.fits := rfl

/-- The scan finds no line that does not fit exactly where the texts are the same. -/
theorem mismatches?_exact_eq_zero_iff : mismatches? AnchorLevel.exact.fits side lines = some 0 ↔
    AnchorLevel.exact.Admits side (lines.take side.length) := by
  rw [mismatches?_eq_zero_iff]
  simp only [exact_fits_iff]
  refine (forall₂_eq_iff_map id HunkLine.text).trans ?_
  rw [List.map_id]
  rfl

/-- The scan finds no line that does not fit loosely where the texts are the same without the spaces
around them. -/
theorem mismatches?_loose_eq_zero_iff : mismatches? AnchorLevel.loose.fits side lines = some 0 ↔
    AnchorLevel.loose.Admits side (lines.take side.length) := by
  rw [mismatches?_eq_zero_iff]
  simp only [loose_fits_iff]
  exact forall₂_eq_iff_map Text.strip fun l => l.text.strip

/-- The scan counts the lines that differ by more than the spaces around them, if no removed line is
one of them. -/
theorem mismatches?_loose_eq_some_iff : mismatches? AnchorLevel.loose.fits side lines = some bad ↔
    List.Forall₂ HunkLine.Allows side (lines.take side.length) ∧
      differing side (lines.take side.length) = bad := by
  rw [mismatches?_eq_some_iff]
  have hcount : (fun p : HunkLine × Text => !AnchorLevel.loose.fits p.2 p.1.text) =
      fun p => p.2.strip != p.1.text.strip := by
    funext p
    rw [bne, Bool.eq_iff_iff, Bool.not_eq_true', Bool.not_eq_true', Bool.eq_false_iff,
      Bool.eq_false_iff, Ne, Ne, loose_fits_iff, beq_iff_eq]
  simp only [loose_fits_iff, hcount]
  rfl

/-- Without fuzz no line may differ. -/
theorem allowance_eq_zero (h : ∀ most, level ≠ .fuzz most) : level.allowance = 0 := by
  cases level with
  | fuzz most => exact absurd rfl (h most)
  | _ => rfl

/-- A level admits lines of which it does not fit so many as it allows, and not all of them. -/
theorem admits_iff (hside : side ≠ []) : level.Admits side (lines.take side.length) ↔
    ∃ bad, mismatches? level.fits side lines = some bad ∧ bad ≤ level.allowance ∧
      bad < side.length := by
  have hpos : 0 < side.length := List.length_pos_iff.mpr hside
  -- A level without fuzz allows no line to differ.
  have hstrict {fits : Text → Text → Bool} : mismatches? fits side lines = some 0 ↔
      ∃ bad, mismatches? fits side lines = some bad ∧ bad ≤ 0 ∧ bad < side.length := by
    refine ⟨fun h => ⟨0, h, Nat.le_refl 0, hpos⟩, ?_⟩
    rintro ⟨bad, hbad, hle, -⟩
    rwa [Nat.le_zero.mp hle] at hbad
  cases level with
  | declaredPosition => exact mismatches?_exact_eq_zero_iff.symm.trans hstrict
  | exact => exact mismatches?_exact_eq_zero_iff.symm.trans hstrict
  | loose => exact mismatches?_loose_eq_zero_iff.symm.trans hstrict
  | fuzz most =>
    rw [fuzz_fits]
    simp only [mismatches?_loose_eq_some_iff]
    constructor
    · rintro ⟨hallows, hmost, hsome⟩
      exact ⟨_, ⟨hallows, rfl⟩, hmost, hsome⟩
    · rintro ⟨_, ⟨hallows, rfl⟩, hmost, hsome⟩
      exact ⟨hallows, hmost, hsome⟩

/-! ## The order of the levels -/

/-- The position of a level in the order in which levels are tried. -/
def rank : AnchorLevel → Nat
  | .declaredPosition | .exact => 0
  | .loose => 1
  | .fuzz most => most + 1

/-- Levels are tried in the order of their rank. -/
theorem pairwise_levels (maxFuzz contextCount : Nat) :
    (levels maxFuzz contextCount).Pairwise fun p q => p.rank < q.rank := by
  refine List.pairwise_cons.mpr ⟨fun level hlevel => ?_, List.pairwise_cons.mpr ⟨fun level hlevel =>
    ?_, List.pairwise_map.mpr (List.pairwise_lt_range.imp fun h => Nat.add_lt_add_right h 2)⟩⟩
  · rcases List.mem_cons.mp hlevel with rfl | hlevel
    · exact Nat.one_pos
    · obtain ⟨i, -, rfl⟩ := List.mem_map.mp hlevel
      exact Nat.succ_pos _
  · obtain ⟨i, -, rfl⟩ := List.mem_map.mp hlevel
    exact Nat.lt_add_left i (Nat.lt_succ_self 1)

/-- A level of lower rank is tried before. -/
theorem mem_of_rank_lt {maxFuzz contextCount : Nat} {before after : List AnchorLevel}
    {level lower : AnchorLevel} (hlevels : levels maxFuzz contextCount = before ++ level :: after)
    (hlower : lower ∈ levels maxFuzz contextCount) (hrank : lower.rank < level.rank) :
    lower ∈ before := by
  have hsorted := pairwise_levels maxFuzz contextCount
  rw [hlevels] at hsorted hlower
  have hafter := (List.pairwise_append.mp hsorted).2.1
  rcases List.mem_append.mp hlower with hbefore | hlater
  · exact hbefore
  · rcases List.mem_cons.mp hlater with rfl | hlater
    · exact absurd hrank (Nat.lt_irrefl _)
    · exact absurd hrank (Nat.lt_asymm ((List.pairwise_cons.mp hafter).1 lower hlater))

theorem fuzz_mem_levels_iff {maxFuzz contextCount most : Nat} :
    .fuzz most ∈ levels maxFuzz contextCount ↔ 0 < most ∧ most ≤ min maxFuzz contextCount := by
  simp only [levels, List.mem_cons, reduceCtorEq, false_or, List.mem_map, List.mem_range,
    AnchorLevel.fuzz.injEq]
  constructor
  · rintro ⟨i, hi, rfl⟩
    omega
  · rintro ⟨hpos, hle⟩
    exact ⟨most - 1, by omega, by omega⟩

end AnchorLevel

namespace Anchor

variable {side : List HunkLine} {lines : List Text} {expected : Int} {place other bad : Nat}
  {level : AnchorLevel} {a : Anchor}

/-- The lines that differ at a place are counted, and few enough of them are allowed. -/
theorem misfits?_eq_some_iff : misfits? lines side level place = some bad ↔
    mismatches? level.fits side (lines.drop place) = some bad ∧ bad ≤ level.allowance ∧
      bad < side.length := by
  rw [misfits?, Option.filter_eq_some_iff, Bool.and_eq_true, decide_eq_true_iff,
    decide_eq_true_iff]

/-- The places that are allowed at a level are those that qualify. -/
theorem exists_misfits?_iff (hside : side ≠ []) :
    (∃ bad, misfits? lines side level place = some bad) ↔ level.Qualifies lines side place := by
  simp only [misfits?_eq_some_iff]
  rw [← AnchorLevel.admits_iff hside]
  refine ⟨fun h => ⟨?_, h⟩, fun h => h.admits⟩
  obtain ⟨bad, hbad, -⟩ := (AnchorLevel.admits_iff hside).mp h
  -- As many lines stand there as the old side has.
  have hlength := (mismatches?_eq_some_iff.mp hbad).1.length_eq
  have hpos : 0 < side.length := List.length_pos_iff.mpr hside
  rw [List.length_take, List.length_drop] at hlength
  omega

/-- A place at which lines differ is allowed already where so few of them may differ. -/
theorem misfits?_of_fuzz {most : Nat} (h : misfits? lines side (.fuzz most) place = some bad) :
    misfits? lines side (if bad = 0 then .loose else .fuzz bad) place = some bad := by
  rw [misfits?_eq_some_iff] at h ⊢
  split_ifs with hzero
  · exact ⟨h.1, Nat.le_of_eq hzero, h.2.2⟩
  · exact ⟨h.1, Nat.le_refl bad, h.2.2⟩

end Anchor

end Emend
