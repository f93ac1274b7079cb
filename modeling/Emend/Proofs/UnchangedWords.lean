import Emend.Proofs.CoveredWords
import Emend.Proofs.DocumentEndings
import Emend.Proofs.FittedWords

/-!
# Blocks that replace a text by itself

A block whose replacement is its search text puts words in the place of the same words: the place
covers them (`Candidate.Covers`), and fitting keeps them (`words_fitted`). What may change is where
a word runs across a border of the place. The spaces around the words of the search text are put in
with them, and they cut a word off that the place starts or ends in the middle of, unless fitting
leaves them out, as it does with one line feed at the end. So the document keeps its words if and
only if that never happens (`splice_words_iff`, `applyAll_words_iff`).
-/

namespace Emend

/-- Line endings are spaces of any style. -/
theorem Text.isBlank_unifyEndings (t : Text) : t.unifyEndings.isBlank = t.isBlank := by
  fun_induction unifyEndings t with
  | case1 => rfl
  | case2 r ih => exact ih
  | case3 c r h ih =>
    have hc : isSpace (if c = '\r' then '\n' else c) = isSpace c := by
      split
      · next hc =>
        rw [hc]
        rfl
      · rfl
    unfold isBlank at ih ⊢
    rw [List.all_cons, List.all_cons, hc, ih]

namespace EditBlock

variable {content search : Text} {c : Candidate}

/-- Where a word runs into the place, one runs into what is put there if the search text starts with
a word. -/
theorem startsWord_inserted_iff (hsearch : search.isBlank = false) (hc : c.Covers content search)
    (hfront : Text.endsWord (content.take c.position) = true) :
    (fitted search search (c.place content) c.strategy
        (startsLine content c.position (c.place content))).startsWord = true ↔
      (c.place content).startsWord = true ∧ search.startsWord = true := by
  obtain ⟨hlines, ⟨hplace, hfeed⟩ | ⟨hplace, hhead, hstarts⟩⟩ := hc.front hfront
  · -- The line feed stays in front of what is put there.
    rw [startsWord_fitted_of_lineFeed hsearch hplace hfeed]
    refine iff_of_false Bool.false_ne_true fun h => ?_
    exact Text.head?_ne_of_startsWord h.1 hplace
  · -- The place starts no line, so that nothing is moved.
    have hposition : c.position ≠ 0 := by
      intro hzero
      rw [hzero] at hfront
      cases hfront
    have hstart : startsLine content c.position (c.place content) = false := by
      unfold startsLine
      rw [Text.endsLine_of_endsWord hfront, beq_eq_false_iff_ne.mpr hposition,
        beq_eq_false_iff_ne.mpr hplace]
      rfl
    have hmoved : isMoved c.strategy (startsLine content c.position (c.place content)) = false := by
      rw [isMoved, hlines, hstart, Bool.and_false, Bool.or_false]
    rw [startsWord_fitted hsearch hmoved hhead]
    exact ⟨fun h => ⟨hstarts h, h⟩, fun h => h.2⟩

/-- Where a word runs out of the place, one runs out of what is put there if nothing or one line
feed follows the words of the search text. -/
theorem endsWord_inserted_iff (hsearch : search.isBlank = false) (hc : c.Covers content search)
    (hrest : Text.startsWord (content.drop c.stop) = true) (atLineStart : Bool) :
    (fitted search search (c.place content) c.strategy atLineStart).endsWord = true ↔
      (c.place content).endsWord = true ∧
        (search.trailingSpaces = [] ∨ search.trailingSpaces = ['\n']) := by
  rw [endsWord_fitted hsearch]
  rcases hc.back hrest with hends | ⟨hne, hfeed⟩
  · rw [Text.endsLine_of_endsWord hends, and_iff_left rfl, and_iff_right hends]
  · refine iff_of_false ?_ ?_
    · rintro (hnil | ⟨heq, hline⟩)
      · exact hne hnil
      · rw [hfeed heq] at hline
        cases hline
    · rintro ⟨hends, hnil | heq⟩
      · exact hne hnil
      · have hline := Text.endsLine_of_endsWord hends
        rw [hfeed heq] at hline
        cases hline

/-- The document keeps its words if and only if no word that runs into the place is cut off by
spaces before the words of the search text, and none that runs out of it by spaces after them. -/
theorem splice_words_iff (hsearch : search.isBlank = false) (hc : c.Covers content search) :
    (splice content search search c).words = content.words ↔
      (Text.endsWord (content.take c.position) = true → (c.place content).startsWord = true →
        search.startsWord = true) ∧
      (Text.startsWord (content.drop c.stop) = true → (c.place content).endsWord = true →
        search.trailingSpaces = [] ∨ search.trailingSpaces = ['\n']) := by
  have hne {t : Text} (ht : t.words = search.words) : t ≠ [] := by
    rintro rfl
    exact Text.words_ne_nil hsearch ht.symm
  have hinserted := words_fitted hsearch (c.place content) c.strategy
    (startsLine content c.position (c.place content))
  have hstarts := startsWord_inserted_iff hsearch hc
  have hends := fun hrest => endsWord_inserted_iff hsearch hc hrest
    (startsLine content c.position (c.place content))
  -- The place and what is put there have the words of the search text, so the borders decide.
  rw [splice_eq]
  generalize fitted search search (c.place content) c.strategy
    (startsLine content c.position (c.place content)) = inserted at *
  conv_lhs => rhs; rw [← c.append_place content]
  rw [Text.words_replace_iff (hinserted.trans hc.words_eq.symm) (hne hinserted) (hne hc.words_eq)
    (fun hfront h => ((hstarts hfront).mp h).1) fun hrest h => ((hends hrest).mp h).1]
  refine and_congr ?_ ?_
  · exact ⟨fun h hfront hplace => ((hstarts hfront).mp (h hfront hplace)).2,
      fun h hfront hplace => (hstarts hfront).mpr ⟨hplace, h hfront hplace⟩⟩
  · exact ⟨fun h hrest hplace => ((hends hrest).mp (h hrest hplace)).2,
      fun h hrest hplace => (hends hrest).mpr ⟨hplace, h hrest hplace⟩⟩

/-- What a single block makes of a document. -/
theorem applyAll_singleton_content (options : Options) (hcontent : '\r' ∉ content) (b : EditBlock) :
    (applyAll options content [b]).value.content =
      match (attempt options content b).value with
      | .placed p => p.next
      | .failed _ _ => content := by
  unfold applyAll
  rw [Text.dominantEnding_of_notMem hcontent, Text.unifyEndings_of_notMem hcontent,
    Batch.apply_value]
  cases hb : ((batch options .lf).attempt content b).value with
  | placed p =>
    have hb' : (attempt options content b).value = .placed p := hb
    rw [Batch.run_of_placed hb, Batch.run_nil, hb']
    exact Text.writeEndings_lineFeed p.next
  | failed f e =>
    have hb' : (attempt options content b).value = .failed f e := hb
    rw [hb']
    cases options.strict with
    | false =>
      rw [Batch.run_of_failed hb, Batch.run_nil]
      rfl
    | true =>
      rw [Batch.run_of_aborted hb]
      rfl

/-- Without the fuzzy strategy, a block that replaces a text by itself leaves a document its words
if and only if, wherever it is placed, the search text starts with a word if one runs into the
place, and it has nothing but one line feed after its last word if a word runs out of the place. -/
theorem applyAll_words_iff (options : Options) (hfuzzy : .fuzzy ∉ options.strategies)
    (hcontent : '\r' ∉ content) {b : EditBlock} (hsearch : b.search.isBlank = false)
    (hsame : b.replacement = b.search) :
    (applyAll options content [b]).value.content.words = content.words ↔
      ∀ m, (Match.locate options.strategies options.threshold content
          b.search.unifyEndings).value = .ok m →
        (Text.endsWord (content.take m.candidate.position) = true →
          (m.candidate.place content).startsWord = true →
            b.search.unifyEndings.startsWord = true) ∧
        (Text.startsWord (content.drop m.candidate.stop) = true →
          (m.candidate.place content).endsWord = true →
            b.search.unifyEndings.trailingSpaces = [] ∨
              b.search.unifyEndings.trailingSpaces = ['\n']) := by
  rw [applyAll_singleton_content options hcontent, attempt_value]
  cases hm : (Match.locate options.strategies options.threshold content
      b.search.unifyEndings).value with
  | error e => exact iff_of_true rfl nofun
  | ok m =>
    have hblank : b.search.unifyEndings.isBlank = false :=
      (Text.isBlank_unifyEndings b.search).trans hsearch
    have hcovers : m.candidate.Covers content b.search.unifyEndings := by
      rcases Match.candidate_of_locate hm with ⟨h, -, -⟩ | ⟨-, strategy, hmem, hcandidate⟩
      · rw [hblank] at h
        cases h
      · exact Match.covers_of_mem_candidates (fun h => hfuzzy (h ▸ hmem)) hblank hcandidate
    have hnext : (b.placement content b.search.unifyEndings b.replacement.unifyEndings m).next =
        splice content b.search.unifyEndings b.search.unifyEndings m.candidate := by
      rw [hsame]
      rfl
    show (b.placement content b.search.unifyEndings b.replacement.unifyEndings m).next.words =
      content.words ↔ _
    rw [hnext, splice_words_iff hblank hcovers]
    constructor
    · intro h m' hm'
      obtain rfl := Except.ok.inj hm'
      exact h
    · exact fun h => h m rfl

/-- Options with all strategies but the fuzzy one. -/
def verbatimOptions : Options :=
  ⟨false, false, [.exact, .lineTrimmed, .whitespaceNormalized, .indentationAgnostic],
    .finite false 1, 0⟩

/-- A search text that is found in the middle of a word starts with a word itself. -/
theorem applyAll_words_iff_midWord :
    .fuzzy ∉ verbatimOptions.strategies ∧ '\r' ∉ "xfoo  bar;\ny\n".toList ∧
    Text.isBlank "foo bar;\n".toList = false ∧
    (applyAll verbatimOptions "xfoo  bar;\ny\n".toList
      [⟨0, "foo bar;\n".toList, "foo bar;\n".toList⟩]).value.content = "xfoo bar;\ny\n".toList ∧
    Text.words "xfoo bar;\ny\n".toList = Text.words "xfoo  bar;\ny\n".toList := by
  have hfuzzy : .fuzzy ∉ verbatimOptions.strategies := by decide
  have hfeeds : '\r' ∉ "xfoo  bar;\ny\n".toList := by decide
  have hsearch : Text.isBlank "foo bar;\n".toList = false := by decide
  have hcontent : (applyAll verbatimOptions "xfoo  bar;\ny\n".toList
      [⟨0, "foo bar;\n".toList, "foo bar;\n".toList⟩]).value.content =
        "xfoo bar;\ny\n".toList := rfl
  refine ⟨hfuzzy, hfeeds, hsearch, hcontent, ?_⟩
  rw [← hcontent]
  refine (applyAll_words_iff verbatimOptions hfuzzy hfeeds hsearch rfl).mpr fun m hm => ?_
  have hfound : (Match.locate verbatimOptions.strategies verbatimOptions.threshold
      "xfoo  bar;\ny\n".toList "foo bar;\n".toList).value =
        .ok ⟨⟨1, 10, .whitespaceNormalized, 1⟩, none⟩ := rfl
  obtain rfl := Except.ok.inj (hfound.symm.trans hm)
  exact ⟨fun _ _ => by decide, fun _ _ => .inr (by decide)⟩

/-- Of two line feeds after the words of the search text one is left out, and the other one cuts the
word in two that goes on after the place. -/
theorem applyAll_cutsWord :
    Text.isBlank "foo\n\n".toList = false ∧
    (applyAll verbatimOptions "foobar\n".toList
      [⟨0, "foo\n\n".toList, "foo\n\n".toList⟩]).value.applied = 1 ∧
    (applyAll verbatimOptions "foobar\n".toList
      [⟨0, "foo\n\n".toList, "foo\n\n".toList⟩]).value.content = "foo\nbar\n".toList ∧
    Text.words "foobar\n".toList = ["foobar".toList] ∧
    Text.words "foo\nbar\n".toList = ["foo".toList, "bar".toList] :=
  ⟨by decide, by decide +kernel, by decide +kernel, by decide, by decide⟩

end EditBlock

end Emend
