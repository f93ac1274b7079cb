import Emend.Proofs.ReadWords
import Emend.Proofs.SharedIndent
import Emend.Proofs.WindowOffsets

/-!
# Words of what a candidate covers

A candidate of a strategy that does not measure similarity covers the words of the search text
(`covers_of_mem_candidates`). A match of words is read from the edge before them to the edge after
them. Lines are equal without their outer spaces, or without an indentation that they share, which
hold no words (`flatMap_words_dedent`). A candidate of lines starts and ends with them, so that no
word runs across its borders. Only a match of words may start or end in the middle of a word: it
starts there if no line feed stands before the first word of the search text, and ends there if the
line goes on after its last word, whatever the search text has there.
-/

namespace Emend

/-! ## Lines and their words -/

namespace Text

/-- Lines keep their words without the spaces around them. -/
theorem flatMap_words_strip (ls : List Text) : (ls.map strip).flatMap words = ls.flatMap words := by
  rw [List.flatMap_map]
  simp only [words_strip]

/-- Lines keep their words without the indentation that they share. -/
theorem flatMap_words_dedent (ls : List Text) : (dedent ls).flatMap words = ls.flatMap words := by
  rw [← flatMap_words_strip, map_strip_dedent, flatMap_words_strip]

end Text

/-! ## Candidates -/

/-- What a candidate has to do with the words of a search text. -/
structure Candidate.Covers (c : Candidate) (content search : Text) : Prop where
  /-- It covers these words. -/
  words_eq : (c.place content).words = search.words
  /-- Where it starts in the middle of a word it is not one of lines. It starts with a line feed
  only if there is one before the first word of the search text, and with a word if the search text
  does. -/
  front : Text.endsWord (content.take c.position) = true → c.strategy.isLineBased = false ∧
    ((c.place content).head? = some '\n' ∧ '\n' ∈ search.leadingSpaces ∨
      (c.place content).head? ≠ some '\n' ∧ search.head? ≠ some '\n' ∧
        (search.startsWord = true → (c.place content).startsWord = true))
  /-- Where a word goes on after it, it ends in one, or spaces follow the last word of the search
  text, which are more than a line feed that it does not have. -/
  back : Text.startsWord (content.drop c.stop) = true → (c.place content).endsWord = true ∨
    search.trailingSpaces ≠ [] ∧
      (search.trailingSpaces = ['\n'] → (c.place content).endsLine = true)

namespace Match

variable {content search : Text} {c : Candidate}

/-- A candidate parts its document, and covers the words of a search text if the parts are as it
takes. -/
theorem covers_of_parts {front place rest : Text} (hcontent : content = front ++ (place ++ rest))
    (hposition : c.position = front.length) (hlength : c.length = place.length)
    (hwords : place.words = search.words)
    (hfront : front.endsWord = true → c.strategy.isLineBased = false ∧
      (place.head? = some '\n' ∧ '\n' ∈ search.leadingSpaces ∨
        place.head? ≠ some '\n' ∧ search.head? ≠ some '\n' ∧
          (search.startsWord = true → place.startsWord = true)))
    (hback : rest.startsWord = true → place.endsWord = true ∨
      search.trailingSpaces ≠ [] ∧ (search.trailingSpaces = ['\n'] → place.endsLine = true)) :
    c.Covers content search := by
  obtain ⟨htake, hplace, hdrop⟩ := Candidate.parts_of_eq_append hcontent hposition hlength
  constructor
  · rw [hplace, hwords]
  · rw [hplace, htake]
    exact hfront
  · rw [hplace, hdrop]
    exact hback

/-- The search text itself covers its words. -/
theorem covers_of_mem_exact (hsearch : search.isBlank = false) (h : c ∈ exact content search) :
    c.Covers content search := by
  obtain ⟨front, rest, hcontent, rfl⟩ := exists_of_mem_exact h
  refine covers_of_parts hcontent rfl rfl rfl (fun _ => ⟨rfl, ?_⟩) fun _ => ?_
  · by_cases hhead : search.head? = some '\n'
    · obtain ⟨t, rfl⟩ := List.head?_eq_some_iff.mp hhead
      exact .inl ⟨rfl, List.mem_cons_self⟩
    · exact .inr ⟨hhead, hhead, id⟩
  · by_cases htrail : search.trailingSpaces = []
    · exact .inl (Text.endsWord_of_trailingSpaces hsearch htrail)
    · refine .inr ⟨htrail, fun hfeed => ?_⟩
      have hparts := Text.stripEnd_append_trailingSpaces search
      rw [hfeed] at hparts
      rw [← hparts, Text.endsLine_concat]
      rfl

/-- A text does not start with a word if there are spaces before its first word. -/
theorem startsWord_of_ofSpaces (h : Edge.ofSpaces search.leadingSpaces ≠ .bare) :
    search.startsWord = false := by
  refine Bool.eq_false_iff.mpr fun hstarts => h ?_
  rw [Text.leadingSpaces_eq_nil hstarts]
  rfl

/-- A match of words covers them. -/
theorem covers_of_mem_whitespaceNormalized (hsearch : search.isBlank = false)
    (h : c ∈ whitespaceNormalized content search) : c.Covers content search := by
  obtain ⟨front, rest, tail, hcontent, hposition, hlead, hlength⟩ :=
    exists_of_mem_whitespaceNormalized h
  have hws : ∀ w ∈ search.words, w ≠ [] ∧ ∀ c ∈ w, Text.isSpace c = false :=
    fun w hw => Text.of_mem_words hw
  obtain ⟨before, read, rfl, hbefore, hspaced⟩ :=
    (afterLead_eq_some_iff hws (Text.words_ne_nil hsearch)).mp hlead
  obtain ⟨after, htail, hafter⟩ := exists_lineRest (Edge.ofSpaces search.trailingSpaces) tail
  have hne := Text.ne_nil_of_startsWord (hspaced.startsWord hws)
  have hparts : content = front ++ ((before ++ (read ++ after)) ++
      afterTrail (Edge.ofSpaces search.trailingSpaces) tail) := by
    rw [hcontent, List.append_assoc, List.append_assoc, ← htail]
  have hhead (h : Edge.ofSpaces search.leadingSpaces ≠ .line) : search.head? ≠ some '\n' :=
    mt ofSpaces_leadingSpaces h
  have hstarts := hspaced.startsWord_append hws after
  refine covers_of_parts hparts hposition ?_ ?_ (fun hfront =>
    ⟨by rw [strategy_of_mem_whitespaceNormalized h]; rfl, ?_⟩) fun hrest => ?_
  · have hsize := congrArg List.length htail
    simp only [List.length_append] at hlength hsize ⊢
    omega
  · rw [Text.words_append_left hbefore.forall_isSpace, Text.words_append_right read
      hafter.forall_isSpace, hspaced.words_eq hws]
  · cases hedge : Edge.ofSpaces search.leadingSpaces with
    | bare =>
      rw [hedge] at hbefore
      cases hbefore
      exact .inr ⟨Text.head?_ne_of_startsWord hstarts, hhead (hedge ▸ nofun), fun _ => hstarts⟩
    | inline =>
      -- The place may start with the word, but the search text does not.
      have hspaces : search.startsWord = false := startsWord_of_ofSpaces (hedge ▸ nofun)
      refine .inr ⟨?_, hhead (hedge ▸ nofun), fun h => by rw [hspaces] at h; cases h⟩
      rw [hedge] at hbefore
      cases hbefore with
      | inline hblanks =>
        cases before with
        | nil => exact Text.head?_ne_of_startsWord hstarts
        | cons b before =>
          rintro hfeed
          cases hfeed
          exact Text.lineFeed_notMem_of_isIndent hblanks List.mem_cons_self
    | line =>
      rw [hedge] at hbefore
      cases hbefore with
      | line => exact .inl ⟨rfl, Edge.ofSpaces_eq_line_iff.mp hedge⟩
      | start hstart =>
        -- At the start of the document nothing stands before the match.
        rw [List.eq_nil_of_length_eq_zero (hposition.symm.trans (beq_iff_eq.mp hstart))] at hfront
        cases hfront
  · rcases hafter.of_startsWord hrest with rfl | ⟨hend, htrail⟩
    · left
      rw [List.append_nil, Text.endsWord_append _ hne, hspaced.endsWord hws]
    · -- The line was read to its end, and the word starts the next one.
      right
      have hfeed := Edge.ofSpaces_eq_line_iff.mp htrail
      refine ⟨List.ne_nil_of_mem hfeed, fun _ => ?_⟩
      have hafterNe : after ≠ [] := by
        rintro rfl
        cases hend
      rw [Text.endsLine_append_of_ne_nil _ (List.append_ne_nil_of_right_ne_nil _ hafterNe),
        Text.endsLine_append_of_ne_nil _ hafterNe, hend]

/-! ## Lines -/

/-- What belongs to a candidate after its lines is spaces. -/
theorem forall_isSpace_feedOf (search rest : Text) :
    ∀ c ∈ feedOf search rest, Text.isSpace c = true := by
  unfold feedOf
  split
  · exact Text.forall_isSpace_lineFeed
  · exact List.forall_mem_nil _

/-- A window with the words of the search text covers them. -/
theorem covers_of_mem_windows {size : Nat} {w : Window} (hsize : 0 < size)
    (h : w ∈ windows size content) (hwords : w.lines.flatMap Text.words = search.words)
    (strategy : Strategy) (confidence : Rat) :
    (w.candidate content search strategy confidence).Covers content search := by
  obtain ⟨before, found, after, hlines, -, hlength, rfl⟩ := exists_lines_of_mem_windows h
  obtain ⟨rest, hrest, hparts, hcandidate⟩ := Window.exists_parts hlines
    (List.length_pos_iff.mp (hlength ▸ hsize)) search strategy confidence
  have hfront : (Text.ended ['\n'] before).endsWord = false :=
    (Text.isTerminated_ended before).endsWord_eq_false
  rw [← Text.length_ended]
  refine covers_of_parts hparts rfl hcandidate ?_ (fun h => by rw [hfront] at h; cases h)
    fun hstarts => ?_
  · rw [Text.words_append_right _ (forall_isSpace_feedOf search rest), Text.words_unlines, hwords]
  · unfold feedOf at hstarts ⊢
    split_ifs at hstarts ⊢ with hfeed
    · exact .inr ⟨Text.trailingSpaces_ne_nil hfeed.1, fun _ => Text.endsLine_concat _ '\n'⟩
    · -- No word follows the lines directly.
      rcases hrest with rfl | hhead
      · cases hstarts
      · exact absurd hhead (Text.head?_ne_of_startsWord hstarts)

/-- Windows with the lines of the search text, once both went through something that keeps words,
have its words. -/
theorem flatMap_words_of_mem_sameLines {normal : List Text → List Text}
    (hnormal : ∀ ls, (normal ls).flatMap Text.words = ls.flatMap Text.words) {w : Window}
    (h : w ∈ sameLines normal content search) :
    w.lines.flatMap Text.words = search.words ∧
      w ∈ windows (normal search.bodyLines).length content := by
  refine ⟨?_, List.mem_of_mem_filter h⟩
  rw [← hnormal, normal_eq_of_mem_sameLines h, hnormal, ← Text.words_eq_flatMap_bodyLines]

/-- Candidates with such lines cover the words of the search text. -/
theorem covers_of_mem_sameLines {normal : List Text → List Text}
    (hnormal : ∀ ls, (normal ls).flatMap Text.words = ls.flatMap Text.words)
    (hsearch : search.isBlank = false) {strategy : Strategy} {confidence : Rat}
    (h : c ∈ (sameLines normal content search).map
      (Window.candidate content search strategy confidence)) : c.Covers content search := by
  obtain ⟨w, hw, rfl⟩ := List.mem_map.mp h
  obtain ⟨hwords, hwindow⟩ := flatMap_words_of_mem_sameLines hnormal hw
  refine covers_of_mem_windows (List.length_pos_iff.mpr fun hnil => ?_) hwindow hwords strategy
    confidence
  -- Without lines the search text had no words.
  refine Text.words_ne_nil hsearch ?_
  rw [Text.words_eq_flatMap_bodyLines, ← hnormal, hnil]
  rfl

/-- A candidate of a strategy that does not measure similarity covers the words of the search
text. -/
theorem covers_of_mem_candidates {strategy : Strategy} {threshold : Binary64}
    (hstrategy : strategy ≠ .fuzzy) (hsearch : search.isBlank = false)
    (h : c ∈ candidates strategy threshold content search) : c.Covers content search := by
  cases strategy with
  | exact => exact covers_of_mem_exact hsearch h
  | lineTrimmed => exact covers_of_mem_sameLines Text.flatMap_words_strip hsearch h
  | whitespaceNormalized => exact covers_of_mem_whitespaceNormalized hsearch h
  | indentationAgnostic => exact covers_of_mem_sameLines Text.flatMap_words_dedent hsearch h
  | fuzzy => exact absurd rfl hstrategy

end Match

end Emend
