import Emend.Proofs.AnchorLevels
import Emend.Proofs.Rounding

/-!
# The best place for a hunk

At a level the search goes over the places that qualify, outwards from the place it starts at, so
that the first of them is the nearest (`isNearest_of_places`), and another one that is as near comes
right after it (`isTied_iff`). `foundAt_of_nearestAt` is all that such a search tells. Level by
level the first one with a place decides (`exists_isFirst_of_firstLevel`), where exactly as many
lines differ as it allows, since with fewer an earlier level had been enough
(`misfits_eq_allowance`). The share of lines that do not differ stays positive when it is rounded
(`confidenceOf_pos`). `find_isOptimum` is the whole search, with its shortcut for loosely equal
lines where it starts.
-/

namespace Emend

namespace Anchor

variable {side : List HunkLine} {lines : List Text} {expected : Int} {place other bad : Nat}
  {level : AnchorLevel} {a : Anchor}

/-! ## The nearest place of a level -/

/-- The place that the search for an old side starts from. -/
def origin (lines : List Text) (side : List HunkLine) (expected : Int) : Nat :=
  clampPlace expected (lines.length - side.length)

/-- A place is the first choice of those that qualify at a level: it is nearer to the start than the
others, or as near and before them. -/
structure IsNearest (lines : List Text) (side : List HunkLine) (level : AnchorLevel)
    (start place : Nat) : Prop where
  /-- The old side may be put there. -/
  qualifies : level.Qualifies lines side place
  /-- All other places are further away, or as far and after it. -/
  nearer : ∀ other, level.Qualifies lines side other → other ≠ place → Nearer start place other

/-- Another place that qualifies at a level is as near to the start. -/
def IsTied (lines : List Text) (side : List HunkLine) (level : AnchorLevel)
    (start place : Nat) : Prop :=
  ∃ other, other ≠ place ∧ level.Qualifies lines side other ∧
    distance start other = distance start place

/-- The search at a level goes over the places that are allowed there. -/
theorem mem_places_iff (hside : side ≠ []) :
    (place, bad) ∈ places lines side expected level ↔
      misfits? lines side level place = some bad := by
  have hstart := clampPlace_le expected (lines.length - side.length)
  rw [places_eq, List.mem_filterMap]
  constructor
  · rintro ⟨p, -, hp⟩
    obtain ⟨n, hn, heq⟩ := Option.map_eq_some_iff.mp hp
    cases heq
    exact hn
  · intro h
    have hinside := ((exists_misfits?_iff hside).mp ⟨bad, h⟩).inside
    refine ⟨place, (mem_middleOut_iff hstart).mpr (by omega), ?_⟩
    rw [h]
    rfl

/-- It takes the nearer places first. -/
theorem pairwise_places (lines : List Text) (side : List HunkLine) (expected : Int)
    (level : AnchorLevel) : (places lines side expected level).Pairwise
      fun p q => Nearer (origin lines side expected) p.1 q.1 := by
  rw [places_eq]
  refine List.Pairwise.filterMap _ (fun p q hpq x hx y hy => ?_) (pairwise_middleOut _ _)
  obtain ⟨n, -, rfl⟩ := Option.map_eq_some_iff.mp hx
  obtain ⟨m, -, rfl⟩ := Option.map_eq_some_iff.mp hy
  exact hpq

section First

variable {others : List (Nat × Nat)}

/-- After the first of the places come the other ones that qualify. -/
theorem exists_mem_others_iff (hside : side ≠ [])
    (hplaces : places lines side expected level = (place, bad) :: others) :
    (∃ n, (other, n) ∈ others) ↔ other ≠ place ∧ level.Qualifies lines side other := by
  have hsorted := pairwise_places lines side expected level
  rw [hplaces, List.pairwise_cons] at hsorted
  constructor
  · rintro ⟨n, hn⟩
    refine ⟨(hsorted.1 _ hn).ne.symm, (exists_misfits?_iff hside).mp ⟨n, ?_⟩⟩
    rw [← mem_places_iff hside, hplaces]
    exact List.mem_cons_of_mem _ hn
  · rintro ⟨hne, hqualifies⟩
    obtain ⟨n, hn⟩ := (exists_misfits?_iff hside).mpr hqualifies
    rw [← mem_places_iff hside, hplaces] at hn
    exact ⟨n, (List.mem_cons.mp hn).resolve_left fun heq => hne (congrArg Prod.fst heq)⟩

/-- The first of the places is the nearest. -/
theorem isNearest_of_places (hside : side ≠ [])
    (hplaces : places lines side expected level = (place, bad) :: others) :
    IsNearest lines side level (origin lines side expected) place := by
  have hfirst : (place, bad) ∈ places lines side expected level := hplaces ▸ List.mem_cons_self
  have hsorted := pairwise_places lines side expected level
  rw [hplaces, List.pairwise_cons] at hsorted
  refine ⟨(exists_misfits?_iff hside).mp ⟨bad, (mem_places_iff hside).mp hfirst⟩,
    fun other hother hne => ?_⟩
  obtain ⟨n, hn⟩ := (exists_mem_others_iff hside hplaces).mpr ⟨hne, hother⟩
  exact hsorted.1 _ hn

/-- Where the nearest place is tied, the next one shows it. -/
theorem isTied_iff (hside : side ≠ [])
    (hplaces : places lines side expected level = (place, bad) :: others) :
    IsTied lines side level (origin lines side expected) place ↔
      ∃ next ∈ others.head?, distance expected next.1 = distance expected place := by
  have hsorted := pairwise_places lines side expected level
  rw [hplaces, List.pairwise_cons] at hsorted
  have hinside := (isNearest_of_places hside hplaces).qualifies.inside
  constructor
  · rintro ⟨other, hne, hother, htie⟩
    obtain ⟨n, hn⟩ := (exists_mem_others_iff hside hplaces).mpr ⟨hne, hother⟩
    obtain ⟨next, rest, rfl⟩ := List.exists_cons_of_ne_nil (List.ne_nil_of_mem hn)
    have hnext := (exists_mem_others_iff hside hplaces).mp ⟨next.2, List.mem_cons_self⟩
    have hlast := hnext.2.inside
    -- The next place is between the first one and the tied one, which are equally far.
    have hge := (hsorted.1 next List.mem_cons_self).le
    have hle : distance (origin lines side expected) next.1 ≤
        distance (origin lines side expected) other := by
      rcases List.mem_cons.mp hn with heq | hn
      · rw [← heq]
      · exact ((List.pairwise_cons.mp hsorted.2).1 _ hn).le
    have hequal := Nat.le_antisymm (hle.trans htie.le) hge
    exact ⟨next, rfl, (distance_clampPlace_eq_iff expected (by omega) (by omega)).mp hequal⟩
  · rintro ⟨⟨next, n⟩, hnext, htie⟩
    have hmem : (next, n) ∈ others := List.mem_of_mem_head? hnext
    obtain ⟨hne, hqualifies⟩ := (exists_mem_others_iff hside hplaces).mp ⟨n, hmem⟩
    have hlast := hqualifies.inside
    exact ⟨next, hne, hqualifies,
      (distance_clampPlace_eq_iff expected (by omega) (by omega)).mpr htie⟩

/-- A tied place is reported. -/
theorem nearestAt_of_isTied (hside : side ≠ [])
    (hplaces : places lines side expected level = (place, bad) :: others)
    (htied : IsTied lines side level (origin lines side expected) place) :
    (nearestAt lines side expected level).value =
      some ⟨place, level, confidenceOf bad side.length,
        some ⟨2, place, .anchor level, place + 1⟩⟩ := by
  obtain ⟨next, hnext, heq⟩ := (isTied_iff hside hplaces).mp htied
  obtain ⟨rest, rfl⟩ := List.head?_eq_some_iff.mp hnext
  unfold nearestAt
  rw [hplaces]
  dsimp only
  rw [if_pos (decide_eq_true heq)]
  rfl

/-- A place that is not tied is the declared one if it is exact and where the search starts. -/
theorem nearestAt_of_not_isTied (hside : side ≠ [])
    (hplaces : places lines side expected level = (place, bad) :: others)
    (htied : ¬IsTied lines side level (origin lines side expected) place) :
    (nearestAt lines side expected level).value =
      some ⟨place,
        if level = .exact ∧ place = origin lines side expected then .declaredPosition else level,
        confidenceOf bad side.length, none⟩ := by
  rw [isTied_iff hside hplaces] at htied
  unfold nearestAt
  rw [hplaces]
  cases others with
  | nil =>
    simp only [decide_eq_true_eq, Bool.and_eq_true]
    rfl
  | cons next rest =>
    have hfar : distance expected next.1 ≠ distance expected place := fun heq =>
      htied ⟨next, rfl, heq⟩
    simp only [hfar, decide_eq_true_eq, Bool.and_eq_true]
    rfl

end First

/-- The place that the search starts from is the nearest, if it qualifies. -/
theorem isNearest_start (h : level.Qualifies lines side place) :
    IsNearest lines side level place place := by
  refine ⟨h, fun other _ hne => .inl ?_⟩
  unfold distance
  omega

/-- No other place is the nearest then. -/
theorem IsNearest.eq_start (h : IsNearest lines side level place other)
    (hplace : level.Qualifies lines side place) : other = place := by
  by_contra hne
  have hnearer := (h.nearer place hplace (Ne.symm hne)).le
  unfold distance at hnearer
  omega

/-- Nothing is tied with the place that the search starts from. -/
theorem not_isTied_self : ¬IsTied lines side level place place := by
  rintro ⟨other, hne, -, htie⟩
  unfold distance at htie
  omega

/-- The search at a level finds nothing where no place qualifies. -/
theorem nearestAt_eq_none_iff (hside : side ≠ []) :
    (nearestAt lines side expected level).value = none ↔
      ∀ place, ¬level.Qualifies lines side place := by
  unfold nearestAt
  cases hplaces : places lines side expected level with
  | nil =>
    refine ⟨fun _ place hplace => ?_, fun _ => rfl⟩
    obtain ⟨bad, hbad⟩ := (exists_misfits?_iff hside).mpr hplace
    rw [← mem_places_iff hside, hplaces] at hbad
    exact List.not_mem_nil hbad
  | cons first others =>
    obtain ⟨place, bad⟩ := first
    refine ⟨fun h => ?_, fun h => absurd (isNearest_of_places hside hplaces).qualifies (h place)⟩
    dsimp only at h
    split_ifs at h
    all_goals cases h

/-- What the search at a level finds. -/
structure FoundAt (lines : List Text) (side : List HunkLine) (expected : Int) (level : AnchorLevel)
    (a : Anchor) : Prop where
  /-- It is the nearest place that qualifies. -/
  nearest : IsNearest lines side level (origin lines side expected) a.position
  /-- An exact place where the search starts is said to be the declared one. -/
  level_eq : a.level =
    if level = .exact ∧ a.position = origin lines side expected then .declaredPosition else level
  /-- A tie with another place is reported. -/
  tie : a.ambiguity.isSome = true ↔
    IsTied lines side level (origin lines side expected) a.position
  /-- What is reported is the place that was used. -/
  ambiguity_eq : ∀ tie ∈ a.ambiguity, tie = ⟨2, a.position, .anchor level, a.position + 1⟩
  /-- The confidence goes by the lines that differ. -/
  confidence_eq : ∃ bad, misfits? lines side level a.position = some bad ∧
    a.confidence = confidenceOf bad side.length

/-- The search at a level finds the nearest place. -/
theorem foundAt_of_nearestAt (hside : side ≠ [])
    (h : (nearestAt lines side expected level).value = some a) :
    FoundAt lines side expected level a := by
  cases hplaces : places lines side expected level with
  | nil =>
    unfold nearestAt at h
    rw [hplaces] at h
    cases h
  | cons first others =>
    obtain ⟨place, bad⟩ := first
    have hnearest := isNearest_of_places hside hplaces
    have hmisfits : misfits? lines side level place = some bad :=
      (mem_places_iff hside).mp (hplaces ▸ List.mem_cons_self)
    by_cases htied : IsTied lines side level (origin lines side expected) place
    · rw [nearestAt_of_isTied hside hplaces htied] at h
      cases h
      -- A tied place is not where the search starts, so that it is not said to be declared.
      have hplace : place ≠ origin lines side expected := fun heq =>
        not_isTied_self (heq ▸ htied)
      exact ⟨hnearest, (if_neg fun h => hplace h.2).symm, iff_of_true rfl htied,
        fun tie htie => (Option.some.inj htie).symm, bad, hmisfits, rfl⟩
    · rw [nearestAt_of_not_isTied hside hplaces htied] at h
      cases h
      exact ⟨hnearest, rfl, iff_of_false Bool.false_ne_true htied, fun tie htie =>
        (Option.not_mem_none tie htie).elim, bad, hmisfits, rfl⟩

/-! ## The first level -/

/-- A level is the first one at which an old side may be put anywhere. -/
def IsFirst (levels : List AnchorLevel) (lines : List Text) (side : List HunkLine)
    (level : AnchorLevel) : Prop :=
  ∃ before after, levels = before ++ level :: after ∧
    ∀ earlier ∈ before, ∀ place, ¬earlier.Qualifies lines side place

/-- The exact level is the first one, if a place qualifies there. -/
theorem IsFirst.eq_exact {maxFuzz contextCount : Nat}
    (h : IsFirst (AnchorLevel.levels maxFuzz contextCount) lines side level)
    (hplace : AnchorLevel.exact.Qualifies lines side place) : level = .exact := by
  obtain ⟨before, after, hlevels, hearlier⟩ := h
  cases before with
  | nil => exact (List.cons.inj hlevels).1.symm
  | cons first before =>
    obtain rfl : AnchorLevel.exact = first := (List.cons.inj hlevels).1
    exact absurd hplace (hearlier .exact List.mem_cons_self place)

/-- The search level by level finds nothing where no place qualifies at any level. -/
theorem firstLevel_eq_none_iff (hside : side ≠ []) {levels : List AnchorLevel} :
    (firstLevel lines side expected levels).value = none ↔
      ∀ level ∈ levels, ∀ place, ¬level.Qualifies lines side place := by
  induction levels with
  | nil => exact iff_of_true rfl (List.forall_mem_nil _)
  | cons level levels ih =>
    rw [firstLevel_cons, Option.or_eq_none_iff, nearestAt_eq_none_iff hside, ih,
      List.forall_mem_cons]

/-- It finds the nearest place of the first level that has one. -/
theorem exists_isFirst_of_firstLevel (hside : side ≠ []) {levels : List AnchorLevel}
    (h : (firstLevel lines side expected levels).value = some a) :
    ∃ level, IsFirst levels lines side level ∧ FoundAt lines side expected level a := by
  induction levels with
  | nil => cases h
  | cons level levels ih =>
    rw [firstLevel_cons] at h
    rcases Option.or_eq_some_iff.mp h with hnearest | ⟨hnone, hrest⟩
    · exact ⟨level, ⟨[], levels, rfl, List.forall_mem_nil _⟩,
        foundAt_of_nearestAt hside hnearest⟩
    · obtain ⟨found, ⟨before, after, heq, hearlier⟩, hfound⟩ := ih hrest
      refine ⟨found, ⟨level :: before, after, congrArg (level :: ·) heq, ?_⟩, hfound⟩
      exact List.forall_mem_cons.mpr ⟨(nearestAt_eq_none_iff hside).mp hnone, hearlier⟩

/-- At the first level as many lines differ as it allows: a place where fewer differ would qualify
at an earlier level. -/
theorem misfits_eq_allowance (hside : side ≠ []) {maxFuzz contextCount : Nat}
    (hfirst : IsFirst (AnchorLevel.levels maxFuzz contextCount) lines side level)
    (h : misfits? lines side level place = some bad) : bad = level.allowance := by
  have hle : bad ≤ level.allowance := (misfits?_eq_some_iff.mp h).2.1
  cases level with
  | declaredPosition => exact Nat.le_zero.mp hle
  | exact => exact Nat.le_zero.mp hle
  | loose => exact Nat.le_zero.mp hle
  | fuzz most =>
    by_contra hne
    have hlt : bad < most := Nat.lt_of_le_of_ne hle hne
    -- The level at which just these lines differ comes before, and the place qualifies there.
    obtain ⟨before, after, hlevels, hearlier⟩ := hfirst
    have hmost : .fuzz most ∈ AnchorLevel.levels maxFuzz contextCount :=
      hlevels ▸ List.mem_append_right _ List.mem_cons_self
    obtain ⟨-, hmost⟩ := AnchorLevel.fuzz_mem_levels_iff.mp hmost
    refine hearlier _ (AnchorLevel.mem_of_rank_lt hlevels ?_ ?_) place
      ((exists_misfits?_iff hside).mp ⟨bad, misfits?_of_fuzz h⟩)
    · split_ifs with hzero
      · exact List.mem_cons_of_mem _ List.mem_cons_self
      · exact AnchorLevel.fuzz_mem_levels_iff.mpr ⟨Nat.pos_of_ne_zero hzero, by omega⟩
    · split_ifs with hzero
      · exact Nat.succ_lt_succ (by omega)
      · exact Nat.succ_lt_succ hlt

/-! ## Confidence -/

theorem confidenceOf_zero (size : Nat) : confidenceOf 0 size = 1 := by
  have hzero : ((0 : Nat) : Rat) / size = 0 := by rw [Nat.cast_zero, zero_div]
  have hnearest : nearest 0 = 0 := if_pos rfl
  rw [confidenceOf, hzero, hnearest, sub_zero, nearest_one]

variable {bad size : Nat}

/-- Where not all lines differ, the share of those that do is below one. -/
theorem one_sub_div_pos (h : bad < size) : (0 : Rat) < 1 - bad / size := by
  have hsize : (0 : Rat) < size := Nat.cast_pos.mpr (by omega)
  rw [sub_pos, div_lt_one hsize]
  exact Nat.cast_lt.mpr h

/-- It stays below one when it is rounded, unless the old side is longer than the format has digits
for. -/
theorem confidenceOf_pos (h : bad < size) (hsize : size ≤ 2 ^ 53) : 0 < confidenceOf bad size := by
  have hnearest := nearest_div_le_belowOne h hsize
  -- So a number of the format stays between the difference and zero.
  have hrest : (2 : Rat) ^ (-53 : Int) ≤ 1 - nearest (bad / size) := by
    rw [belowOne] at hnearest
    linarith
  calc (0 : Rat) < nearest ((2 : Rat) ^ (-53 : Int)) := by decide +kernel
    _ ≤ confidenceOf bad size := nearest_mono (by positivity) hrest

/-! ## The anchor -/

/-- The old side stands where the search starts, but only without the spaces around its lines. -/
def IsLooseAt (lines : List Text) (side : List HunkLine) (place : Nat) : Prop :=
  AnchorLevel.loose.Qualifies lines side place ∧ ¬AnchorLevel.exact.Qualifies lines side place

/-- An anchor is the best one for a hunk, and so at the level given. -/
structure IsOptimum (lines : List Text) (hunk : Hunk) (expected : Int) (maxFuzz : Nat)
    (level : AnchorLevel) (a : Anchor) : Prop where
  /-- Where the search starts, loosely equal lines are preferred to equal ones elsewhere. -/
  loose : IsLooseAt lines hunk.oldSide (origin lines hunk.oldSide expected) →
    level = .loose ∧ a.position = origin lines hunk.oldSide expected
  /-- Otherwise the first level at which a place qualifies is taken. -/
  first : ¬IsLooseAt lines hunk.oldSide (origin lines hunk.oldSide expected) →
    IsFirst (AnchorLevel.levels maxFuzz hunk.contextCount) lines hunk.oldSide level
  /-- The place is the nearest that qualifies. -/
  nearest : IsNearest lines hunk.oldSide level (origin lines hunk.oldSide expected) a.position
  /-- Equal lines where the search starts are said to be declared there. -/
  declared : AnchorLevel.exact.Qualifies lines hunk.oldSide (origin lines hunk.oldSide expected) →
    a.level = .declaredPosition
  /-- Anywhere else the level is said as it is. -/
  level_eq : ¬AnchorLevel.exact.Qualifies lines hunk.oldSide
    (origin lines hunk.oldSide expected) → a.level = level
  /-- A tie is reported if and only if another place that qualifies is as near. -/
  tie : a.ambiguity.isSome = true ↔
    IsTied lines hunk.oldSide level (origin lines hunk.oldSide expected) a.position
  /-- What is reported is the place that was used. -/
  ambiguity_eq : ∀ tie ∈ a.ambiguity, tie = ⟨2, a.position, .anchor level, a.position + 1⟩
  /-- Without fuzz the place is sure. -/
  sure : (∀ most, level ≠ .fuzz most) → a.confidence = 1
  /-- With fuzz as many lines differ as the level allows. -/
  differing_eq : ∀ most, level = .fuzz most →
    differing hunk.oldSide ((lines.drop a.position).take hunk.oldSide.length) = most
  /-- The confidence is the share of the lines that do not differ. -/
  unsure : ∀ most, level = .fuzz most →
    a.confidence = Emend.nearest (1 - Emend.nearest (most / hunk.oldSide.length))
  /-- That share is positive. -/
  share_pos : ∀ most, level = .fuzz most → (0 : Rat) < 1 - most / hunk.oldSide.length
  /-- The rounded one is too, if the format has digits for the lines. -/
  confidence_pos : hunk.oldSide.length ≤ 2 ^ 53 → 0 < a.confidence

/-- Loosely equal lines where the search starts are the best place at their level. -/
theorem isOptimum_of_isLooseAt {hunk : Hunk} {maxFuzz : Nat}
    (hloose : IsLooseAt lines hunk.oldSide (origin lines hunk.oldSide expected)) :
    IsOptimum lines hunk expected maxFuzz .loose
      ⟨origin lines hunk.oldSide expected, .loose, 1, none⟩ where
  loose := fun _ => ⟨rfl, rfl⟩
  first := fun h => absurd hloose h
  nearest := isNearest_start hloose.1
  declared := fun h => absurd h hloose.2
  level_eq := fun _ => rfl
  tie := iff_of_false Bool.false_ne_true not_isTied_self
  ambiguity_eq := fun tie htie => (Option.not_mem_none tie htie).elim
  sure := fun _ => rfl
  differing_eq := fun _ h => by cases h
  unsure := fun _ h => by cases h
  share_pos := fun _ h => by cases h
  confidence_pos := fun _ => one_pos

/-- A search level by level that does not start where lines are loosely equal finds the best
place. -/
theorem isOptimum_of_foundAt {hunk : Hunk} {maxFuzz : Nat} (hside : hunk.oldSide ≠ [])
    (hloose : ¬IsLooseAt lines hunk.oldSide (origin lines hunk.oldSide expected))
    (hfirst : IsFirst (AnchorLevel.levels maxFuzz hunk.contextCount) lines hunk.oldSide level)
    (hfound : FoundAt lines hunk.oldSide expected level a) :
    IsOptimum lines hunk expected maxFuzz level a := by
  obtain ⟨bad, hbad, hconfidence⟩ := hfound.confidence_eq
  obtain rfl := misfits_eq_allowance hside hfirst hbad
  obtain ⟨hmismatches, -, hsome⟩ := misfits?_eq_some_iff.mp hbad
  have hexact : level = .exact ∧ a.position = origin lines hunk.oldSide expected ↔
      AnchorLevel.exact.Qualifies lines hunk.oldSide (origin lines hunk.oldSide expected) := by
    constructor
    · rintro ⟨rfl, hposition⟩
      exact hposition ▸ hfound.nearest.qualifies
    · intro hqualifies
      obtain rfl := hfirst.eq_exact hqualifies
      exact ⟨rfl, hfound.nearest.eq_start hqualifies⟩
  exact {
    loose := fun h => absurd h hloose
    first := fun _ => hfirst
    nearest := hfound.nearest
    declared := fun h => hfound.level_eq.trans (if_pos (hexact.mpr h))
    level_eq := fun h => hfound.level_eq.trans (if_neg (mt hexact.mp h))
    tie := hfound.tie
    ambiguity_eq := hfound.ambiguity_eq
    sure := fun hfuzz => by
      rw [hconfidence, AnchorLevel.allowance_eq_zero hfuzz, confidenceOf_zero]
    differing_eq := by
      rintro most rfl
      exact (AnchorLevel.mismatches?_loose_eq_some_iff.mp hmismatches).2
    unsure := by
      rintro most rfl
      exact hconfidence
    share_pos := by
      rintro most rfl
      exact one_sub_div_pos hsome
    confidence_pos := fun hsize => hconfidence ▸ confidenceOf_pos hsome hsize }

/-- Where loosely equal lines stand and where not is told by two scans. -/
theorem isLooseAt_iff (hlines : ¬lines.length < side.length) :
    IsLooseAt lines side (origin lines side expected) ↔
      mismatches? AnchorLevel.exact.fits side (lines.drop (origin lines side expected)) ≠ some 0 ∧
        mismatches? AnchorLevel.loose.fits side (lines.drop (origin lines side expected)) =
          some 0 := by
  have hstart := clampPlace_le expected (lines.length - side.length)
  have hinside : origin lines side expected + side.length ≤ lines.length := by
    rw [origin]
    omega
  have hqualifies (level : AnchorLevel) :
      level.Qualifies lines side (origin lines side expected) ↔
        level.Admits side ((lines.drop (origin lines side expected)).take side.length) :=
    ⟨AnchorLevel.Qualifies.admits, fun h => ⟨hinside, h⟩⟩
  rw [IsLooseAt, hqualifies, hqualifies, Ne, AnchorLevel.mismatches?_exact_eq_zero_iff,
    AnchorLevel.mismatches?_loose_eq_zero_iff, and_comm]

/-- Loosely equal lines where the search starts are taken. -/
theorem find_of_isLooseAt {hunk : Hunk} {maxFuzz : Nat} (hside : hunk.oldSide ≠ [])
    (hlines : ¬lines.length < hunk.oldSide.length)
    (h : IsLooseAt lines hunk.oldSide (origin lines hunk.oldSide expected)) :
    (find lines hunk expected maxFuzz).value =
      some ⟨origin lines hunk.oldSide expected, .loose, 1, none⟩ := by
  unfold find
  rw [if_neg (mt List.isEmpty_iff.mp hside), if_neg hlines]
  exact congrArg Traced.value (if_pos ((isLooseAt_iff hlines).mp h))

/-- Otherwise the levels are searched. -/
theorem find_of_not_isLooseAt {hunk : Hunk} {maxFuzz : Nat} (hside : hunk.oldSide ≠ [])
    (hlines : ¬lines.length < hunk.oldSide.length)
    (h : ¬IsLooseAt lines hunk.oldSide (origin lines hunk.oldSide expected)) :
    (find lines hunk expected maxFuzz).value =
      (firstLevel lines hunk.oldSide expected
        (AnchorLevel.levels maxFuzz hunk.contextCount)).value := by
  unfold find
  rw [if_neg (mt List.isEmpty_iff.mp hside), if_neg hlines]
  exact congrArg Traced.value (if_neg (mt (isLooseAt_iff hlines).mpr h))

/-- The search for a hunk finds nothing if and only if the document is too short or no place
qualifies at any level, and what it finds is the best place. -/
theorem find_isOptimum (lines : List Text) (hunk : Hunk) (expected : Int) (maxFuzz : Nat)
    (hside : hunk.oldSide ≠ []) :
    ((find lines hunk expected maxFuzz).value = none ↔
      lines.length < hunk.oldSide.length ∨
        ∀ level ∈ AnchorLevel.levels maxFuzz hunk.contextCount, ∀ place,
          ¬level.Qualifies lines hunk.oldSide place) ∧
      ∀ a, (find lines hunk expected maxFuzz).value = some a →
        ∃ level, IsOptimum lines hunk expected maxFuzz level a := by
  have hempty : ¬hunk.oldSide.isEmpty = true := mt List.isEmpty_iff.mp hside
  by_cases hshort : lines.length < hunk.oldSide.length
  · have hfind : (find lines hunk expected maxFuzz).value = none := by
      unfold find
      rw [if_neg hempty, if_pos hshort]
      rfl
    refine ⟨iff_of_true hfind (.inl hshort), fun a ha => ?_⟩
    rw [hfind] at ha
    cases ha
  · by_cases hloose : IsLooseAt lines hunk.oldSide (origin lines hunk.oldSide expected)
    · rw [find_of_isLooseAt hside hshort hloose]
      refine ⟨iff_of_false (Option.some_ne_none _) fun h => h.elim hshort fun hnone => ?_,
        fun a ha => ⟨.loose, ?_⟩⟩
      · exact hnone .loose (List.mem_cons_of_mem _ List.mem_cons_self) _ hloose.1
      · obtain rfl := Option.some.inj ha
        exact isOptimum_of_isLooseAt hloose
    · rw [find_of_not_isLooseAt hside hshort hloose]
      refine ⟨(firstLevel_eq_none_iff hside).trans (or_iff_right hshort).symm, fun a ha => ?_⟩
      obtain ⟨level, hfirst, hfound⟩ := exists_isFirst_of_firstLevel hside ha
      exact ⟨level, isOptimum_of_foundAt hside hloose hfirst hfound⟩

/-- A hunk with one line of context and one removed line, the context of which stands nowhere, is
put at the earlier of two places that are two lines from the expected one. -/
theorem find_isOptimum_tie :
    let hunk : Hunk := ⟨0, some 3, 2, some 3, 1,
      [⟨.context, "a".toList⟩, ⟨.remove, "b".toList⟩], "@@ -3,2 +3 @@".toList, false, false⟩
    let lines : List Text := ["q", "b", "m", "n", "q", "b"].map String.toList
    hunk.oldSide ≠ [] ∧ ∃ level, IsOptimum lines hunk 2 2 level
      ⟨0, .fuzz 1, 1 / 2, some ⟨2, 0, .anchor (.fuzz 1), 1⟩⟩ :=
  ⟨by decide, (find_isOptimum _ _ 2 2 (by decide)).2 _ (by decide +kernel)⟩

end Anchor

end Emend
