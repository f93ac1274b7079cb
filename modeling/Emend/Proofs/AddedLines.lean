import Emend.Proofs.Drift

/-!
# Added lines under fuzz

A hunk is put in as it is written if its added lines are put in unchanged (`Hunk.Verbatim`). Where
it was found by fuzz, they are moved from the indentation of its first visible old line to that of
the first visible line of the region, and each of the two is looked for on its own. A move changes
no line just if it is between equal indentations or no line starts with the one that it takes off
(`Text.moveIndent_eq_self_iff`). So the added lines are surely verbatim where the two lines are one
and the same, as when the old side and the region begin alike down to a visible line; where fuzz
lets them differ, they take the indentation of a line that has none of its own in the hunk
(`Hunk.verbatim_fuzz_iff`).
-/

namespace Emend

namespace Text

variable {inner outer line : Text} {ls : List Text}

/-- A move between indentations leaves a line alone if it is blank, does not start with the first of
them or they are the same, and only then. -/
theorem moveIndent_eq_self_iff : moveIndent inner outer line = line ↔
    isBlank line = true ∨ startsWith inner line = false ∨ inner = outer := by
  unfold moveIndent
  split
  · next hblank => exact iff_of_true rfl (.inl hblank)
  · next hblank =>
    rw [or_iff_right hblank, startsWith]
    cases hafter : after inner line with
    | none => exact iff_of_true rfl (.inl rfl)
    | some rest =>
      obtain rfl := after_eq_some_iff.mp hafter
      rw [List.append_left_inj, eq_comm]
      exact (or_iff_right Bool.false_ne_true.symm).symm

/-- There is no first visible line just if all lines are blank. -/
theorem firstVisible_eq_nil_iff : firstVisible ls = [] ↔ ∀ l ∈ ls, isBlank l = true := by
  unfold firstVisible
  cases hfind : ls.find? (!isBlank ·) with
  | none =>
    rw [List.find?_eq_none] at hfind
    refine iff_of_true rfl fun l hl => ?_
    simpa using hfind l hl
  | some l =>
    have hvisible : ¬isBlank l = true := by simpa using List.find?_some hfind
    refine iff_of_false ?_ fun hall => hvisible (hall l (List.mem_of_find?_eq_some hfind))
    rintro rfl
    exact hvisible rfl

/-- A visible line among the first ones is followed by no other first visible line. -/
theorem firstVisible_append (h : ∃ l ∈ ls, isBlank l = false) (rest : List Text) :
    firstVisible (ls ++ rest) = firstVisible ls := by
  obtain ⟨l, hl, hvisible⟩ := h
  have hsome : (ls.find? (!isBlank ·)).isSome = true :=
    List.find?_isSome.mpr ⟨l, hl, by rw [hvisible]; rfl⟩
  rw [firstVisible, List.find?_append, Option.or_of_isSome hsome, firstVisible]

end Text

namespace Hunk

/-- What the lines of a hunk make of a region if the added ones are put in as they are written. -/
inductive Verbatim : List HunkLine → List Text → List Text → Prop
  /-- Without lines there is nothing. -/
  | nil : Verbatim [] [] []
  /-- At context the line of the region stays. -/
  | context {ls : List HunkLine} {region new : List Text} (text line : Text)
    (rest : Verbatim ls region new) :
    Verbatim (⟨.context, text⟩ :: ls) (line :: region) (line :: new)
  /-- At a removed line the line of the region is dropped. -/
  | remove {ls : List HunkLine} {region new : List Text} (text line : Text)
    (rest : Verbatim ls region new) : Verbatim (⟨.remove, text⟩ :: ls) (line :: region) new
  /-- An added line is put in. -/
  | add {ls : List HunkLine} {region new : List Text} (text : Text)
    (rest : Verbatim ls region new) : Verbatim (⟨.add, text⟩ :: ls) region (text :: new)

/-- A region is rebuilt with the added lines as they are written just if each of them is put in
unchanged. -/
theorem verbatim_rebuildWith_iff {insert : Text → Text} {ls : List HunkLine} {region : List Text}
    (hsize : region.length = (ls.filter (·.kind != .add)).length) :
    Verbatim ls region (rebuildWith insert ls region) ↔
      ∀ l ∈ ls, l.kind = .add → insert l.text = l.text := by
  induction ls generalizing region with
  | nil =>
    obtain rfl := List.length_eq_zero_iff.mp hsize
    exact iff_of_true .nil (List.forall_mem_nil _)
  | cons l ls ih =>
    obtain ⟨kind, text⟩ := l
    rw [List.forall_mem_cons]
    cases kind with
    | context =>
      obtain ⟨line, rest, rfl⟩ := List.exists_cons_of_length_eq_add_one hsize
      rw [← ih (Nat.succ.inj hsize), and_iff_right nofun]
      exact ⟨fun h => by cases h; assumption, fun h => .context text line h⟩
    | remove =>
      obtain ⟨line, rest, rfl⟩ := List.exists_cons_of_length_eq_add_one hsize
      rw [← ih (Nat.succ.inj hsize), and_iff_right nofun]
      exact ⟨fun h => by cases h; assumption, fun h => .remove text line h⟩
    | add =>
      rw [← ih hsize, rebuildWith]
      constructor
      · generalize insert text = put
        intro h
        cases h with
        | add _ rest => exact ⟨fun _ => rfl, rest⟩
      · rintro ⟨htext, h⟩
        rw [htext rfl]
        exact .add text h

/-- By a loose anchor the added lines are put in as they are written just if no old line is visible,
the first visible lines have one indentation, or none of them starts with that of the hunk. -/
theorem verbatim_rebuild_iff {h : Hunk} {region : List Text}
    (hsize : region.length = h.oldLines.length) :
    Verbatim h.lines region (h.rebuild region true) ↔
      (∀ t ∈ h.oldLines, t.isBlank = true) ∨
      Text.indent (Text.firstVisible h.oldLines) = Text.indent (Text.firstVisible region) ∨
      ∀ l ∈ h.lines, l.kind = .add → l.text.isBlank = true ∨
        Text.startsWith (Text.indent (Text.firstVisible h.oldLines)) l.text = false := by
  rw [rebuild, verbatim_rebuildWith_iff (hsize.trans (List.length_map _))]
  by_cases hsource : Text.firstVisible h.oldLines = []
  · -- Without a visible old line nothing is moved.
    refine iff_of_true (fun l _ _ => ?_) (.inl (Text.firstVisible_eq_nil_iff.mp hsource))
    rw [inserted, hsource]
    rfl
  · have hinserted : ∀ text, h.inserted region true text =
        Text.moveIndent (Text.indent (Text.firstVisible h.oldLines))
          (Text.indent (Text.firstVisible region)) text := by
      intro text
      refine if_pos ?_
      rw [Bool.true_and, Bool.not_eq_true', List.isEmpty_eq_false_iff]
      exact hsource
    rw [← Text.firstVisible_eq_nil_iff, or_iff_right hsource]
    by_cases hsame : Text.indent (Text.firstVisible h.oldLines) =
        Text.indent (Text.firstVisible region)
    · refine iff_of_true (fun l _ _ => ?_) (.inl hsame)
      rw [hinserted, Text.moveIndent_eq_self_iff]
      exact .inr (.inr hsame)
    · rw [or_iff_right hsame]
      refine forall₃_congr fun l _ _ => ?_
      rw [hinserted, Text.moveIndent_eq_self_iff, or_iff_left hsame]

/-- If the first lines of an old side are those of the region, and one of them is visible, then the
first visible lines are the same. -/
theorem firstVisible_eq_of_take {old region : List Text} {n : Nat}
    (hsize : region.length = old.length) (hvisible : ∃ t ∈ old.take n, t.isBlank = false)
    (hsame : ∀ x ∈ (old.zip region).take n, x.2 = x.1) :
    Text.firstVisible region = Text.firstVisible old := by
  have htake : region.take n = old.take n := by
    calc region.take n = ((old.zip region).map Prod.snd).take n := by
          rw [List.map_snd_zip (Nat.le_of_eq hsize)]
      _ = ((old.zip region).take n).map Prod.snd := List.map_take.symm
      _ = ((old.zip region).take n).map Prod.fst := List.map_congr_left hsame
      _ = ((old.zip region).map Prod.fst).take n := List.map_take
      _ = old.take n := by rw [List.map_fst_zip (Nat.le_of_eq hsize.symm)]
  rw [← List.take_append_drop n region, ← List.take_append_drop n old, htake,
    Text.firstVisible_append hvisible, Text.firstVisible_append hvisible]

/-- A hunk that is put at an anchor where it fits leaves the lines before its region and those after
it. -/
theorem put_parts {h : Hunk} {s : HunkState} {a : Anchor} {maxFuzz : Nat}
    (hfits : FitsAt s.lines h.oldSide maxFuzz a.position) :
    ∃ front region back, s.lines = front ++ region ++ back ∧ region.length = h.oldLines.length ∧
      (h.put s a).lines = front ++ h.rebuild region a.level.isLoose ++ back ∧
      (h.put s a).lines.take a.position = front := by
  obtain ⟨hlength, -⟩ := turns_rebuild hfits
  have hinside := hfits.inside
  have hfront : (s.lines.take a.position).length = a.position := by
    rw [List.length_take]
    omega
  refine ⟨s.lines.take a.position, (s.lines.drop a.position).take h.oldLines.length,
    s.lines.drop (a.position + h.oldLines.length), ?_, hlength, rfl, ?_⟩
  · rw [List.append_assoc, ← List.drop_drop, List.take_append_drop, List.take_append_drop]
  · show List.take a.position (_ ++ _ ++ _) = _
    rw [List.append_assoc, List.take_left' hfront]

/-- **Added lines under fuzz.** A hunk that is applied by fuzz replaces one region, of as many lines
as its old side has. Its added lines are put in as they are written just if no old line is visible,
the first visible lines of the old side and of the region have one indentation, or no added line
starts with that of the hunk. If old lines that are the same as the lines beside them up to outer
spaces are the same altogether, then it is enough that the first of them are, a visible one among
them. -/
theorem verbatim_fuzz_iff (options : Options) (content : Text) {hunks : List Hunk} {s : HunkState}
    {h : Hunk} (happlied : (s, h) ∈ (batch options content.dominantEnding).placed
      (HunkState.ofContent content.unifyEndings) hunks) :
    ∃ p, (attempt options.maxFuzz s h).value = .placed p ∧
      ∀ most, p.record.method = .anchor (.fuzz most) →
        ∃ front region new back, s.lines = front ++ region ++ back ∧
          region.length = h.oldLines.length ∧ p.next.lines = front ++ new ++ back ∧
          p.record.position = Text.extent front ∧
          (Verbatim h.lines region new ↔
            (∀ t ∈ h.oldLines, t.isBlank = true) ∨
            Text.indent (Text.firstVisible h.oldLines) = Text.indent (Text.firstVisible region) ∨
            ∀ l ∈ h.lines, l.kind = .add → l.text.isBlank = true ∨
              Text.startsWith (Text.indent (Text.firstVisible h.oldLines)) l.text = false) ∧
          ((∀ x ∈ h.oldLines.zip region, x.2.strip = x.1.strip → x.2 = x.1) →
            ∀ n, (∃ t ∈ h.oldLines.take n, t.isBlank = false) →
              (∀ x ∈ (h.oldLines.zip region).take n, x.2.strip = x.1.strip) →
              Verbatim h.lines region new) := by
  obtain ⟨p, hp⟩ := Batch.exists_placement_of_mem_placed happlied
  refine ⟨p, hp, fun most hmost => ?_⟩
  obtain ⟨a, -, ha, rfl⟩ := placement_of_attempt hp
  have hlevel : a.level = .fuzz most := Method.anchor.inj hmost
  obtain ⟨front, region, back, hlines, hsize, hput, hfront⟩ := put_parts (Anchor.fitsAt_of_find ha)
  rw [hlevel] at hput
  have hverbatim : Verbatim h.lines region (h.rebuild region true) ↔ _ :=
    verbatim_rebuild_iff hsize
  refine ⟨front, region, _, back, hlines, hsize, hput, congrArg Text.extent hfront, hverbatim, ?_⟩
  intro hequal n hvisible hsame
  refine hverbatim.mpr (.inr (.inl ?_))
  rw [firstVisible_eq_of_take hsize hvisible fun x hx =>
    hequal x (List.mem_of_mem_take hx) (hsame x hx)]

/-- A document with indented lines. -/
def indentedBody : Text := "f:\n  a\n  b\n".toList

/-- A hunk that changes the second line, and whose last line is another one than that of the
document. -/
def bodyChange : Hunk :=
  ⟨0, some 1, 3, some 1, 3, [⟨.context, ['f', ':']⟩, ⟨.remove, [' ', ' ', 'a']⟩,
    ⟨.add, [' ', ' ', 'z']⟩, ⟨.context, [' ', ' ', 'c']⟩], "@@ -1,3 +1,3 @@".toList, false, false⟩

/-- The first line is the same on both sides, so the added line keeps its indentation. -/
theorem verbatim_fuzz_bodyChange :
    (HunkState.ofContent indentedBody.unifyEndings, bodyChange) ∈
      (batch .default indentedBody.dominantEnding).placed
        (HunkState.ofContent indentedBody.unifyEndings) [bodyChange] ∧
    ∃ p, (attempt Options.default.maxFuzz (HunkState.ofContent indentedBody.unifyEndings)
        bodyChange).value = .placed p ∧
      p.record.method = .anchor (.fuzz 1) ∧
      p.next.lines = [['f', ':'], [' ', ' ', 'z'], [' ', ' ', 'b']] ∧
      ∃ front region new back,
        (HunkState.ofContent indentedBody.unifyEndings).lines = front ++ region ++ back ∧
        p.next.lines = front ++ new ++ back ∧
        (∀ x ∈ bodyChange.oldLines.zip region, x.2.strip = x.1.strip → x.2 = x.1) ∧
        Verbatim bodyChange.lines region new := by
  have happlied : (HunkState.ofContent indentedBody.unifyEndings, bodyChange) ∈
      (batch .default indentedBody.dominantEnding).placed
        (HunkState.ofContent indentedBody.unifyEndings) [bodyChange] := List.mem_cons_self
  obtain ⟨p, hp, hfuzz⟩ := verbatim_fuzz_iff .default indentedBody happlied
  obtain rfl := Attempt.placed.inj hp
  obtain ⟨front, region, new, back, hlines, hsize, hnew, -, -, hkept⟩ := hfuzz 1 rfl
  -- The region is the whole document.
  have hlength : 3 = (front ++ region ++ back).length := congrArg List.length hlines
  have hthree : region.length = 3 := hsize
  rw [List.length_append, List.length_append] at hlength
  obtain rfl : front = [] := List.length_eq_zero_iff.mp (by omega)
  obtain rfl : back = [] := List.length_eq_zero_iff.mp (by omega)
  obtain rfl : region = [['f', ':'], [' ', ' ', 'a'], [' ', ' ', 'b']] :=
    (List.append_nil region).symm.trans hlines.symm
  have hequal : ∀ x ∈ bodyChange.oldLines.zip [['f', ':'], [' ', ' ', 'a'], [' ', ' ', 'b']],
      Text.strip x.2 = Text.strip x.1 → x.2 = x.1 := by decide
  exact ⟨happlied, _, hp, rfl, rfl, [], _, new, [], hlines, hnew, hequal,
    hkept hequal 1 (by decide) (by decide)⟩

/-- A document whose first line alone is indented. -/
def indentedTitle : Text := "    a\nx\n".toList

/-- A hunk that changes the second line, below a blank one that the document has other text at. -/
def changeBelowBlank : Hunk :=
  ⟨0, some 1, 2, some 1, 2, [⟨.context, []⟩, ⟨.remove, ['x']⟩, ⟨.add, ['z']⟩],
    "@@ -1,2 +1,2 @@".toList, false, false⟩

end Hunk

namespace Edit

/-- An added line gets the indentation of an unrelated line: under fuzz the first line of the region
differs, the other one is the same as in the hunk, and yet the added line is not put in as it is
written but with the spaces of the first one. -/
theorem applyHunks_movesAddedLine :
    (∃ diff, (ParsedDiff.read "@@ -1,2 +1,2 @@\n \n-x\n+z\n".toList).value = .ok diff ∧
      diff.hunks = [Hunk.changeBelowBlank]) ∧
    (∃ p, (Hunk.attempt Options.default.maxFuzz
        (HunkState.ofContent Hunk.indentedTitle.unifyEndings) Hunk.changeBelowBlank).value =
          .placed p ∧
      p.record.method = .anchor (.fuzz 1) ∧ p.record.position = 0 ∧
      (HunkState.ofContent Hunk.indentedTitle.unifyEndings).lines =
        [[' ', ' ', ' ', ' ', 'a'], ['x']] ∧
      (∀ x ∈ Hunk.changeBelowBlank.oldLines.zip [[' ', ' ', ' ', ' ', 'a'], ['x']],
        Text.strip x.2 = Text.strip x.1 → x.2 = x.1) ∧
      p.next.lines = [[' ', ' ', ' ', ' ', 'a'], [' ', ' ', ' ', ' ', 'z']] ∧
      ¬Hunk.Verbatim Hunk.changeBelowBlank.lines [[' ', ' ', ' ', ' ', 'a'], ['x']]
        p.next.lines) ∧
    ∃ o, (applyHunks Hunk.indentedTitle "@@ -1,2 +1,2 @@\n \n-x\n+z\n".toList
        (.ok .default)).value = .ok o ∧
      o.applied = 1 ∧ o.content = "    a\n    z\n".toList := by
  refine ⟨⟨_, rfl, by decide +kernel⟩, ⟨_, rfl, rfl, rfl, rfl, by decide, rfl, ?_⟩,
    _, rfl, by decide +kernel, by decide +kernel⟩
  intro hverbatim
  cases hverbatim with
  | context _ _ rest =>
    cases rest with
    | remove _ _ rest => cases rest

end Edit

end Emend
