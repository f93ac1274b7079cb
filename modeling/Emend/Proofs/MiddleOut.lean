import Emend.Proofs.AnchorFit

/-!
# Places by distance

The scan from the middle outwards goes over all places (`mem_middleOut_iff`), the nearer ones first
and of two equally near ones the earlier (`pairwise_middleOut`). It starts at the place nearest to
the expected line, which may lie before or after all places; for places the distance from either is
in the same order (`distance_clampPlace_le_iff`), so that the scan may measure from the expected
line while it goes by distance from its start. Of all lists of the places it is the one that is in
the order of the distance from the expected line (`scansAround_iff`).
-/

namespace Emend

open Anchor (distance)

/-- A place is nearer to the start than another, or as near and before it. -/
def Nearer (start p q : Nat) : Prop :=
  distance start p < distance start q ∨ distance start p = distance start q ∧ p < q

variable {start last p q : Nat}

theorem Nearer.ne (h : Nearer start p q) : p ≠ q := by
  rintro rfl
  rcases h with h | ⟨-, h⟩ <;> exact Nat.lt_irrefl _ h

theorem Nearer.le (h : Nearer start p q) : distance start p ≤ distance start q := by
  rcases h with h | ⟨h, -⟩
  · exact Nat.le_of_lt h
  · exact Nat.le_of_eq h

theorem Nearer.lt_of_eq (h : Nearer start p q) (heq : distance start p = distance start q) :
    p < q := by
  rcases h with h | ⟨-, h⟩
  · exact absurd heq (Nat.ne_of_lt h)
  · exact h

/-- The scan goes over the places up to the last one. -/
theorem mem_middleOut_iff (hstart : start ≤ last) : p ∈ middleOut start last ↔ p ≤ last := by
  refine ⟨le_of_mem_middleOut hstart, fun hp => ?_⟩
  rcases Nat.lt_trichotomy p start with hlt | rfl | hgt
  · refine List.mem_cons_of_mem _ (List.mem_flatMap.mpr ⟨start - p - 1, ?_, ?_⟩)
    · rw [List.mem_range]
      omega
    · refine List.mem_append_left _ ?_
      rw [if_pos (by omega), List.mem_singleton]
      omega
  · exact List.mem_cons_self
  · refine List.mem_cons_of_mem _ (List.mem_flatMap.mpr ⟨p - start - 1, ?_, ?_⟩)
    · rw [List.mem_range]
      omega
    · refine List.mem_append_right _ ?_
      rw [if_pos (by omega), List.mem_singleton]
      omega

/-- Past the first one, the places of the scan are so many steps below or above the start. -/
theorem distance_of_mem_step {i : Nat}
    (hp : p ∈ (if i < start then [start - (i + 1)] else []) ++
      (if start + (i + 1) ≤ last then [start + (i + 1)] else [])) :
    distance start p = i + 1 := by
  unfold distance
  rcases List.mem_append.mp hp with hp | hp
  · split at hp
    · rw [List.mem_singleton] at hp
      omega
    · cases hp
  · split at hp
    · rw [List.mem_singleton] at hp
      omega
    · cases hp

/-- The scan goes outwards, and of two equally near places it takes the earlier first. -/
theorem pairwise_middleOut (start last : Nat) : (middleOut start last).Pairwise (Nearer start) := by
  refine List.pairwise_cons.mpr ⟨fun p hp => ?_, List.pairwise_flatMap.mpr ⟨fun i _ => ?_, ?_⟩⟩
  · obtain ⟨i, -, hi⟩ := List.mem_flatMap.mp hp
    have hsteps := distance_of_mem_step hi
    refine .inl ?_
    rw [hsteps, distance]
    omega
  · -- On each step there is a place below the start at most, and one above it.
    refine List.pairwise_append.mpr ⟨?_, ?_, fun p hp q hq => .inr ?_⟩
    · split
      · exact List.pairwise_singleton _ _
      · exact List.Pairwise.nil
    · split
      · exact List.pairwise_singleton _ _
      · exact List.Pairwise.nil
    · have hsteps : distance start p = distance start q :=
        (@distance_of_mem_step start last p i (List.mem_append_left _ hp)).trans
          (@distance_of_mem_step start last q i (List.mem_append_right _ hq)).symm
      refine ⟨hsteps, ?_⟩
      split at hp
      · split at hq
        · rw [List.mem_singleton] at hp hq
          omega
        · cases hq
      · cases hp
  · refine List.pairwise_lt_range.imp fun {i j} hij p hp q hq => .inl ?_
    rw [distance_of_mem_step hp, distance_of_mem_step hq]
    omega

/-- Of two places, the one that is no further from the place nearest to the expected line is no
further from that line. -/
theorem distance_clampPlace_le_iff (expected : Int) (hp : p ≤ last) (hq : q ≤ last) :
    distance (clampPlace expected last) p ≤ distance (clampPlace expected last) q ↔
      distance expected p ≤ distance expected q := by
  unfold distance clampPlace
  omega

/-- Places that are as far from the one are as far from the other. -/
theorem distance_clampPlace_eq_iff (expected : Int) (hp : p ≤ last) (hq : q ≤ last) :
    distance (clampPlace expected last) p = distance (clampPlace expected last) q ↔
      distance expected p = distance expected q := by
  have hle := distance_clampPlace_le_iff expected hp hq
  have hge := distance_clampPlace_le_iff expected hq hp
  omega

/-! ## The order around the expected line -/

/-- A list goes over the places up to the last one by their distance from the expected line, which
need not be one of them. -/
structure ScansAround (expected : Int) (last : Nat) (scan : List Nat) : Prop where
  /-- Each place is there once, and nothing else. -/
  perm : scan.Perm (List.range (last + 1))
  /-- The nearer places come first. -/
  outwards : scan.Pairwise fun p q => distance expected p ≤ distance expected q
  /-- Of two equally near ones the earlier comes first. -/
  earlier : scan.Pairwise fun p q => distance expected p = distance expected q → p < q

/-- There is one such list at most. -/
theorem ScansAround.eq {expected : Int} {scan other : List Nat} (h : ScansAround expected last scan)
    (hother : ScansAround expected last other) : scan = other := by
  -- Two places that the lists hold in different orders would be equally far, and each before the
  -- other.
  refine List.Perm.eq_of_pairwise (fun p q _ _ hpq hqp => ?_) (h.outwards.and h.earlier)
    (hother.outwards.and hother.earlier) (h.perm.trans hother.perm.symm)
  have heq := Nat.le_antisymm hpq.1 hqp.1
  exact absurd (hpq.2 heq) (Nat.lt_asymm (hqp.2 heq.symm))

/-- The scan goes over each place once. -/
theorem middleOut_perm_range (hstart : start ≤ last) :
    (middleOut start last).Perm (List.range (last + 1)) := by
  have hnodup : (middleOut start last).Nodup := (pairwise_middleOut start last).imp Nearer.ne
  refine (List.perm_ext_iff_of_nodup hnodup List.nodup_range).mpr fun p => ?_
  rw [mem_middleOut_iff hstart, List.mem_range, Nat.lt_succ_iff]

/-- The scan goes by the distance from its start, and so by the distance from the expected line. -/
theorem scansAround_middleOut (expected : Int) (last : Nat) :
    ScansAround expected last (middleOut (clampPlace expected last) last) := by
  have hstart := clampPlace_le expected last
  have hscan := pairwise_middleOut (clampPlace expected last) last
  refine ⟨middleOut_perm_range hstart, hscan.imp_of_mem fun {p q} hp hq h => ?_,
    hscan.imp_of_mem fun {p q} hp hq h heq => ?_⟩
  all_goals
    rw [mem_middleOut_iff hstart] at hp hq
  · exact (distance_clampPlace_le_iff expected hp hq).mp h.le
  · exact h.lt_of_eq ((distance_clampPlace_eq_iff expected hp hq).mpr heq)

/-- The scan that starts at the place nearest to the expected line, wherever that line is, goes over
each place once by the distance from that line, of two equally near ones the earlier first; and no
other list does. -/
theorem scansAround_iff (expected : Int) (last : Nat) (scan : List Nat) :
    ScansAround expected last scan ↔ scan = middleOut (clampPlace expected last) last := by
  constructor
  · exact fun h => h.eq (scansAround_middleOut expected last)
  · rintro rfl
    exact scansAround_middleOut expected last

/-- Past the last place all others lie before the start. -/
example : middleOut (clampPlace 9 3) 3 = [3, 2, 1, 0] := by decide

end Emend
