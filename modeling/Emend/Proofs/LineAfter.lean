import Emend.Proofs.CandidatePlaces
import Emend.Proofs.DocumentEndings

/-!
# The line after a replaced place

A block of whole lines is put into a place that ends with a line feed. What follows the place began
a line before, and whether it still begins one is decided by what stands in front of it now. A
replacement of whole lines still ends with a line feed when it is fitted to the place
(`isTerminated_fitted`), unless nothing is left of it: it was empty, or it was a line feed that is
left out, which happens only where a line starts. Then the line comes right after what stands before
the place, and it begins a line only if the place did (`lineAfter_splice_iff`). An empty replacement
for a place in the middle of a line joins the start of that line with the line after the place.
-/

namespace Emend

namespace Text

variable {front rest t : Text}

/-- What follows a terminated part of a text begins a line of it. -/
def BeginsLineIn (rest t : Text) : Prop := ∃ front : Text, front.IsTerminated ∧ t = front ++ rest

/-- What is appended to a text begins a line just if the text is terminated. -/
theorem beginsLineIn_append_iff : rest.BeginsLineIn (front ++ rest) ↔ front.IsTerminated := by
  constructor
  · rintro ⟨front', hfront', heq⟩
    rwa [List.append_cancel_right heq]
  · exact fun h => ⟨front, h, rfl⟩

/-- What is left of a text begins a line just if what is dropped is terminated. -/
theorem beginsLineIn_drop_iff {n : Nat} :
    BeginsLineIn (t.drop n) t ↔ IsTerminated (t.take n) := by
  have hparts : BeginsLineIn (t.drop n) (t.take n ++ t.drop n) ↔ IsTerminated (t.take n) :=
    beginsLineIn_append_iff
  rwa [List.take_append_drop] at hparts

end Text

namespace EditBlock

variable {replacement search place : Text} {strategy : Strategy} {atLineStart : Bool}

/-- In a place that ends with a line feed only the first line feed may be left out. -/
theorem trimEdges_of_endsLine (hplace : place.endsLine = true) :
    trimEdges replacement search place =
      if search.head? = some '\n' ∧ place.head? ≠ some '\n' ∧ replacement.head? = some '\n'
      then replacement.tail else replacement := by
  unfold trimEdges
  simp [hplace, and_assoc]

/-- A text that ends a line does so when it is moved. -/
theorem endsLine_moved {t : Text} (h : t.endsLine = true) (source target : Text) :
    (moved t source target).endsLine = true := by
  unfold moved
  rw [if_pos h]
  exact Text.endsLine_concat _ '\n'

/-- A replacement that is terminated is so when it is fitted to a place that ends with a line
feed. -/
theorem isTerminated_fitted (hr : replacement.IsTerminated) (hplace : place.endsLine = true) :
    (fitted replacement search place strategy atLineStart).IsTerminated := by
  have htrimmed : (trimEdges replacement search place).IsTerminated := by
    rw [trimEdges_of_endsLine hplace]
    split
    · exact hr.tail
    · exact hr
  unfold fitted
  dsimp only
  split
  · next hmoved =>
    have hne : trimEdges replacement search place ≠ [] := by
      simpa using (Bool.and_eq_true_iff.mp hmoved).2
    exact .of_endsLine (endsLine_moved (htrimmed.resolve_left hne) search place)
  · exact htrimmed

/-- Nothing is fitted where there is nothing to fit. -/
theorem fitted_nil : fitted [] search place strategy atLineStart = [] := by
  have htrimmed : trimEdges [] search place = [] := by
    unfold trimEdges
    simp [Text.endsLine]
  unfold fitted
  dsimp only
  rw [htrimmed, List.isEmpty_nil, Bool.not_true, Bool.and_false]
  rfl

/-- If nothing is left of a replacement of whole lines in a place that ends with a line feed, then
it was empty, or it lost the line feed that the search text starts with and the place does not. -/
theorem of_fitted_eq_nil (hr : replacement.IsTerminated) (hplace : place.endsLine = true)
    (h : fitted replacement search place strategy atLineStart = []) :
    replacement = [] ∨ search.head? = some '\n' ∧ place.head? ≠ some '\n' := by
  by_cases hhead : search.head? = some '\n' ∧ place.head? ≠ some '\n'
  · exact .inr hhead
  · left
    have htrimmed : trimEdges replacement search place = replacement := by
      rw [trimEdges_of_endsLine hplace, if_neg fun h => hhead ⟨h.1, h.2.1⟩]
    by_contra hne
    unfold fitted at h
    dsimp only at h
    rw [htrimmed] at h
    split at h
    · -- What is moved ends with a line feed.
      have hend := endsLine_moved (hr.resolve_left hne) search place
      rw [h] at hend
      cases hend
    · exact hne h

/-- The line after a place that ends with a line feed begins where a line begins, when whole lines
are put into the place, just if there are such lines or the place itself begins a line. -/
theorem lineAfter_splice_iff {content : Text} {c : Candidate} (hr : replacement.IsTerminated)
    (hplace : (c.place content).endsLine = true)
    (hstart : search.head? = some '\n' → Text.IsTerminated (content.take c.position) ∨
      (content.drop c.position).head? = some '\n') :
    (Text.BeginsLineIn (content.drop c.stop) (splice content search replacement c)) ↔
      replacement ≠ [] ∨ Text.BeginsLineIn (content.drop c.position) content := by
  rw [splice_eq, Text.beginsLineIn_append_iff, Text.beginsLineIn_drop_iff]
  generalize startsLine content c.position (c.place content) = atLineStart
  have hterminated : (fitted replacement search (c.place content) c.strategy
    atLineStart).IsTerminated := isTerminated_fitted hr hplace
  by_cases hnil : fitted replacement search (c.place content) c.strategy atLineStart = []
  · rw [hnil, List.append_nil]
    refine ⟨.inr, fun h => h.elim (fun hne => ?_) id⟩
    -- The replacement lost a line feed that the place does not start with, so a line starts there.
    obtain ⟨hsearch, hhead⟩ := (of_fitted_eq_nil hr hplace hnil).resolve_left hne
    refine (hstart hsearch).resolve_right fun hfeed => hhead ?_
    have hlength : c.length ≠ 0 := by
      intro hzero
      rw [c.place_eq, hzero, List.take_zero] at hplace
      cases hplace
    rw [c.place_eq, List.head?_take, if_neg hlength, hfeed]
  · have hne : replacement ≠ [] := by
      rintro rfl
      exact hnil fitted_nil
    have hend : (fitted replacement search (c.place content) c.strategy atLineStart).endsLine =
        true := hterminated.resolve_left hnil
    rw [← Text.endsLine_append_of_ne_nil (content.take c.position) hnil] at hend
    exact iff_of_true (.of_endsLine hend) (.inl hne)

/-- When a block of whole lines is applied to a place that ends with a line feed, after the blocks
before it, the line after the place begins a line of the new document just if the replacement is not
empty or the place begins a line itself. -/
theorem applyAll_lineAfter_iff (options : Options) {content : Text} (hcontent : '\r' ∉ content)
    {before : List EditBlock} {s : Text} {t : Tally}
    (hrun : ((batch options .lf).run options.strict options.telemetry content (.initial [])
      before).value = .finished s t)
    {b : EditBlock} (hb : b.replacement.IsTerminated) {p : Placement Text}
    (hp : (attempt options s b).value = .placed p) :
    (applyAll options content (before ++ [b])).value.content = p.next ∧
    ∃ m, (Match.locate options.strategies options.threshold s b.search.unifyEndings).value = .ok m ∧
      ((m.candidate.place s).endsLine = true →
        (Text.BeginsLineIn (s.drop m.candidate.stop) p.next ↔
          b.replacement ≠ [] ∨ Text.BeginsLineIn (s.drop m.candidate.position) s)) := by
  refine ⟨applyAll_concat_of_notMem options hcontent hrun hp, ?_⟩
  obtain ⟨m, hm, rfl⟩ := placement_of_attempt hp
  refine ⟨m, hm, fun hplace => ?_⟩
  have hne : b.replacement.unifyEndings ≠ [] ↔ b.replacement ≠ [] :=
    not_congr Text.unifyEndings_eq_nil_iff
  rw [← hne]
  refine lineAfter_splice_iff hb.unifyEndings hplace fun hhead => ?_
  rcases Match.candidate_of_locate hm with ⟨-, -, hwhole⟩ | ⟨-, strategy, -, hmem⟩
  · -- A blank document is replaced as a whole.
    rw [hwhole]
    exact .inl (.inl rfl)
  · exact Match.isTerminated_or_lineFeed hhead hmem

/-- A replacement that is not empty ends the line that it stands on. -/
theorem applyAll_lineAfter_midLine :
    '\r' ∉ "a\nxfoo\nbar\n".toList ∧ Text.IsTerminated "baz\n".toList ∧
    (applyAll .default "a\nxfoo\nbar\n".toList ([⟨0, "a\n".toList, []⟩] ++
      [⟨1, "foo\n".toList, "baz\n".toList⟩])).value.content = "xbaz\nbar\n".toList ∧
    Text.BeginsLineIn "bar\n".toList "xbaz\nbar\n".toList := by
  have hfeeds : '\r' ∉ "a\nxfoo\nbar\n".toList := by decide
  have hended : Text.IsTerminated "baz\n".toList := by decide
  -- The first block leaves the lines after the first one, of which the second block finds a part.
  obtain ⟨t, hrun⟩ : ∃ t, ((batch .default .lf).run false false "a\nxfoo\nbar\n".toList
      (.initial []) [⟨0, "a\n".toList, []⟩]).value = .finished "xfoo\nbar\n".toList t := ⟨_, rfl⟩
  obtain ⟨p, hp, hnext⟩ : ∃ p, (attempt .default "xfoo\nbar\n".toList
      ⟨1, "foo\n".toList, "baz\n".toList⟩).value = .placed p ∧
        p.next = "xbaz\nbar\n".toList := ⟨_, rfl, rfl⟩
  have hfound : (Match.locate Options.default.strategies Options.default.threshold
      "xfoo\nbar\n".toList "foo\n".toList).value = .ok ⟨⟨1, 4, .exact, 1⟩, none⟩ := rfl
  obtain ⟨hcontent, m, hm, hline⟩ := applyAll_lineAfter_iff .default hfeeds hrun hended hp
  obtain rfl : (⟨⟨1, 4, .exact, 1⟩, none⟩ : Match) = m := Except.ok.inj (hfound.symm.trans hm)
  rw [hnext] at hcontent hline
  exact ⟨hfeeds, hended, hcontent, (hline (by decide)).mpr (.inl (by decide))⟩

end EditBlock

namespace Edit

/-- An empty replacement joins the line before the place with the line after it. -/
theorem applyBlocks_joinsLines :
    (Match.locate Options.default.strategies Options.default.threshold "xfoo\nbar\n".toList
      "foo\n".toList).value = .ok ⟨⟨1, 4, .exact, 1⟩, none⟩ ∧
    Candidate.place "xfoo\nbar\n".toList ⟨1, 4, .exact, 1⟩ = "foo\n".toList ∧
    (∃ o, (applyBlocks "xfoo\nbar\n".toList
        "<<<<<<< SEARCH\nfoo\n=======\n>>>>>>> REPLACE\n".toList (.ok .default)).value = .ok o ∧
      o.applied = 1 ∧ o.content = "xbar\n".toList) ∧
    ¬ Text.BeginsLineIn "bar\n".toList "xbar\n".toList := by
  refine ⟨rfl, by decide, ⟨_, rfl, by decide +kernel, by decide +kernel⟩, ?_⟩
  have hparts : "xbar\n".toList = "x".toList ++ "bar\n".toList := rfl
  rw [hparts, Text.beginsLineIn_append_iff]
  decide

end Edit

end Emend
