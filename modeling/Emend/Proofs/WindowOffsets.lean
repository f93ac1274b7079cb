import Emend.Proofs.WindowOrder

/-!
# Offsets of windows

What a strategy for lines finds is cut out of the document at line ends. The lines of a window stand
in the document after the line feeds of the lines before them, and what follows their text is
nothing or a line feed (`Text.exists_rest_of_bodyLines`). So the question that is asked about a
window, whether the document goes on after it, is the question whether a line feed is there to be
taken (`Match.Window.length_candidate`). A candidate covers the lines of its window to the character
(`Match.coversLines_windowAt`), and candidates stand in the order of their windows
(`Match.pairwise_of_isLineBased`).
-/

namespace Emend

namespace Text

variable {t : Text} {before ls after : List Text}

/-- Some body lines of a text stand in it after the lines before them, and nothing but the end of
the text or a line feed follows them. -/
theorem exists_rest_of_bodyLines (h : t.bodyLines = before ++ (ls ++ after)) (hne : ls ≠ []) :
    ∃ rest, t = ended ['\n'] before ++ (unlines ls ++ rest) ∧
      (rest = [] ∨ rest.head? = some '\n') := by
  have ht := written_bodyLines t
  rw [h, written_append_append _ _ _ hne, written_eq_unlines _ hne, List.append_assoc] at ht
  refine ⟨_, ht.symm, ?_⟩
  cases hend : t.endsLine || !after.isEmpty with
  | true => exact .inr rfl
  | false =>
    obtain ⟨-, hafter⟩ := Bool.or_eq_false_iff.mp hend
    rw [Bool.not_eq_false', List.isEmpty_iff] at hafter
    exact .inl (by rw [hafter, written_nil]; rfl)

/-- After two parts of a text stands the first character of what follows them. -/
theorem getElem?_of_eq_append {front middle rest : Text} (h : t = front ++ (middle ++ rest)) :
    t[front.length + middle.length]? = rest.head? := by
  rw [h, ← List.append_assoc, ← List.length_append, List.getElem?_append_right le_rfl, Nat.sub_self,
    List.head?_eq_getElem?]

/-- Where a line ends in a text, the text starts or a line feed stands right before. -/
theorem IsTerminated.exists_feed {n : Nat} (h : IsTerminated (t.take n)) (hn : n ≤ t.length) :
    n = 0 ∨ ∃ p, n = p + 1 ∧ t[p]? = some '\n' := by
  cases n with
  | zero => exact .inl rfl
  | succ p =>
    right
    refine ⟨p, rfl, ?_⟩
    rw [List.take_succ_eq_append_getElem hn] at h
    rcases h with hnil | hends
    · exact absurd hnil (List.append_ne_nil_of_right_ne_nil _ (List.cons_ne_nil _ _))
    · rw [endsLine, List.getLast?_concat, beq_iff_eq] at hends
      rw [List.getElem?_eq_getElem hn, hends]

end Text

namespace Match

variable {content search front rest : Text} {found : List Text} {strategy : Strategy}
  {confidence : Rat}

/-! ## The text of a candidate -/

/-- What follows the lines of a candidate and belongs to it: a line feed, if the search text ends
with one and there is one. -/
def feedOf (search rest : Text) : Text :=
  if search.endsLine = true ∧ rest.head? = some '\n' then ['\n'] else []

/-- What belongs to a candidate is the first part of what follows its lines. -/
theorem feedOf_append_drop (search rest : Text) :
    feedOf search rest ++ rest.drop (feedOf search rest).length = rest := by
  unfold feedOf
  split
  · next h =>
    obtain ⟨t, rfl⟩ := List.head?_eq_some_iff.mp h.2
    rfl
  · rfl

/-- A document goes on after some of its lines just if a line feed follows them, so that a candidate
is as long as the text of its lines and the line feed that belongs to it. -/
theorem Window.length_candidate (hcontent : content = front ++ (Text.unlines found ++ rest))
    (hrest : rest = [] ∨ rest.head? = some '\n') :
    (Window.candidate content search strategy confidence ⟨front.length, found⟩).length =
      (Text.unlines found ++ feedOf search rest).length := by
  have hlength : content.length = front.length + (Text.unlines found).length + rest.length := by
    rw [hcontent, List.length_append, List.length_append, Nat.add_assoc]
  have hmore : front.length + (Text.unlines found).length < content.length ↔
      rest.head? = some '\n' := by
    rw [hlength]
    rcases hrest with rfl | hfeed
    · exact iff_of_false (Nat.lt_irrefl _) nofun
    · have hpos : 0 < rest.length := List.length_pos_iff.mpr (by rintro rfl; cases hfeed)
      exact iff_of_true (by omega) hfeed
  unfold candidate feedOf
  simp only [Bool.and_eq_true, decide_eq_true_iff, hmore, List.length_append]
  split <;> rfl

/-- A document parts around the candidate of some of its lines. -/
theorem Window.exists_parts {before after : List Text}
    (hlines : content.bodyLines = before ++ (found ++ after)) (hfound : found ≠ [])
    (search : Text) (strategy : Strategy) (confidence : Rat) :
    ∃ rest, (rest = [] ∨ rest.head? = some '\n') ∧
      content = Text.ended ['\n'] before ++ ((Text.unlines found ++ feedOf search rest) ++
        rest.drop (feedOf search rest).length) ∧
      (Window.candidate content search strategy confidence
        ⟨(Text.ended ['\n'] before).length, found⟩).length =
          (Text.unlines found ++ feedOf search rest).length := by
  obtain ⟨rest, hcontent, hrest⟩ := Text.exists_rest_of_bodyLines hlines hfound
  refine ⟨rest, hrest, ?_, Window.length_candidate hcontent hrest⟩
  rw [List.append_assoc (Text.unlines found), feedOf_append_drop, ← hcontent]

/-- The lines of a document that are compared with those of a search text from the line with number
`i` on, where lines are counted from zero. -/
def comparedLines (content search : Text) (i : Nat) : List Text :=
  (content.bodyLines.drop i).take search.bodyLines.length

/-- A candidate covers lines of its document: as many as the search text has, from the line with
number `i` on. -/
structure CoversLines (content search : Text) (i : Nat) (c : Candidate) : Prop where
  /-- The document has these lines. -/
  inside : i + search.bodyLines.length ≤ content.bodyLines.length
  /-- Before the candidate stand the lines before them, each with its line feed. -/
  before_eq : content.take c.position = Text.ended ['\n'] (content.bodyLines.take i)
  /-- It starts at the start of the document or right after a line feed. -/
  starts : c.position = 0 ∨ ∃ p, c.position = p + 1 ∧ content[p]? = some '\n'
  /-- It ends within the document. -/
  stop_le : c.stop ≤ content.length
  /-- It covers the text of the lines, and a line feed after it just if the search text ends with
  one and the document has one there. -/
  place_eq : c.place content = Text.unlines (comparedLines content search i) ++
    if search.endsLine = true ∧
      content[c.position + (Text.unlines (comparedLines content search i)).length]? = some '\n'
    then ['\n'] else []

/-- The candidate of the window at a line covers lines from this one on. -/
theorem coversLines_windowAt {i : Nat}
    (hi : i + search.bodyLines.length ≤ content.bodyLines.length) (strategy : Strategy)
    (confidence : Rat) :
    CoversLines content search i ((windowAt search.bodyLines.length content.bodyLines i).candidate
      content search strategy confidence) := by
  have hpos : 0 < search.bodyLines.length := List.length_pos_iff.mpr search.bodyLines_ne_nil
  have hlines : content.bodyLines = content.bodyLines.take i ++ (comparedLines content search i ++
      content.bodyLines.drop (i + search.bodyLines.length)) := by
    rw [comparedLines, ← List.drop_drop, List.take_append_drop, List.take_append_drop]
  have hlength : (comparedLines content search i).length = search.bodyLines.length := by
    rw [comparedLines, List.length_take, List.length_drop]
    omega
  obtain ⟨rest, -, hparts, hsize⟩ := Window.exists_parts hlines
    (List.length_pos_iff.mp (hlength ▸ hpos)) search strategy confidence
  generalize hc : Window.candidate content search strategy confidence
    (windowAt search.bodyLines.length content.bodyLines i) = c
  have hposition : c.position = (Text.ended ['\n'] (content.bodyLines.take i)).length := by
    rw [← hc, Text.length_ended]
    rfl
  rw [Text.length_ended] at hsize
  have hsize : c.length = (Text.unlines (comparedLines content search i) ++
    feedOf search rest).length := hc ▸ hsize
  obtain ⟨hbefore, hplace, -⟩ := Candidate.parts_of_eq_append hparts hposition hsize
  have hstop := Candidate.stop_le_of_eq_append hparts hposition hsize
  refine ⟨hi, hbefore, ?_, hstop, ?_⟩
  · refine Text.IsTerminated.exists_feed ?_ ((Nat.le_add_right _ _).trans hstop)
    rw [hbefore]
    exact Text.isTerminated_ended _
  · have hnext : content[c.position + (Text.unlines (comparedLines content search i)).length]? =
        rest.head? := by
      rw [hposition]
      refine Text.getElem?_of_eq_append (hparts.trans ?_)
      rw [List.append_assoc (Text.unlines _), feedOf_append_drop]
    rw [hplace, hnext]
    rfl

/-! ## The order of candidates -/

/-- The candidates of a strategy for lines stand one after another. -/
theorem pairwise_of_isLineBased (hlines : strategy.isLineBased = true) (threshold : Binary64)
    (content search : Text) :
    (candidates strategy threshold content search).Pairwise (·.position < ·.position) := by
  have hsame (normal : List Text → List Text) :
      (sameLines normal content search).Pairwise (·.start < ·.start) :=
    (pairwise_windows _ content).filter _
  cases strategy with
  | exact => cases hlines
  | whitespaceNormalized => cases hlines
  | lineTrimmed => exact List.pairwise_map.mpr (hsame _)
  | indentationAgnostic => exact List.pairwise_map.mpr (hsame _)
  | fuzzy =>
    refine List.Pairwise.filterMap _ (fun v w hvw c hc d hd => ?_) (pairwise_windows _ content)
    obtain ⟨_, -, rfl⟩ := Option.map_eq_some_iff.mp hc
    obtain ⟨_, -, rfl⟩ := Option.map_eq_some_iff.mp hd
    exact hvw

/-- **What the strategies for lines find is cut at line ends.** Each of their candidates starts at
the start of the document or right after a line feed and ends within the document. Its text is that
of the lines that the strategy accepted, as many as the search text has, with a line feed after it
just if the search text ends with one and the document has one there. All lines that the strategy
accepts are found, and candidates stand one after another. -/
theorem candidates_coverLines (hlines : strategy.isLineBased = true) (threshold : Binary64)
    (content search : Text) :
    (∀ c ∈ candidates strategy threshold content search, ∃ i, CoversLines content search i c ∧
      Accepts strategy threshold search (comparedLines content search i) c.confidence) ∧
    (∀ i confidence, i + search.bodyLines.length ≤ content.bodyLines.length →
      Accepts strategy threshold search (comparedLines content search i) confidence →
      ∃ c ∈ candidates strategy threshold content search, CoversLines content search i c ∧
        c.confidence = confidence) ∧
    (candidates strategy threshold content search).Pairwise (·.position < ·.position) := by
  have hpos : 0 < search.bodyLines.length := List.length_pos_iff.mpr search.bodyLines_ne_nil
  refine ⟨fun c hc => ?_, fun i confidence hi haccepts => ?_,
    pairwise_of_isLineBased hlines threshold content search⟩
  · obtain ⟨w, hw, confidence, haccepts, rfl⟩ := (mem_candidates_iff hlines).mp hc
    obtain ⟨i, hi, rfl⟩ := (mem_windows_iff hpos).mp hw
    exact ⟨i, coversLines_windowAt hi strategy confidence, haccepts⟩
  · have hw := (mem_windows_iff hpos).mpr ⟨i, hi, rfl⟩
    exact ⟨_, (mem_candidates_iff hlines).mpr ⟨_, hw, confidence, haccepts, rfl⟩,
      coversLines_windowAt hi strategy confidence, rfl⟩

/-- The last line of a document, which no line feed ends, is found without one where the search text
ends with a line feed, and the same line in the middle with one. -/
theorem candidates_coverLines_lastLine :
    Strategy.lineTrimmed.isLineBased = true ∧
    candidates .lineTrimmed defaultThreshold "a\n\tb\n\n b".toList "b\n".toList =
      [⟨2, 3, .lineTrimmed, 1⟩, ⟨6, 2, .lineTrimmed, 1⟩] ∧
    ∃ i, CoversLines "a\n\tb\n\n b".toList "b\n".toList i ⟨6, 2, .lineTrimmed, 1⟩ ∧
      (comparedLines "a\n\tb\n\n b".toList "b\n".toList i).map Text.strip = ["b".toList] := by
  have hfound : candidates .lineTrimmed defaultThreshold "a\n\tb\n\n b".toList "b\n".toList =
      [⟨2, 3, .lineTrimmed, 1⟩, ⟨6, 2, .lineTrimmed, 1⟩] := by decide +kernel
  have hlines : Strategy.lineTrimmed.isLineBased = true := rfl
  obtain ⟨hcovers, -⟩ := candidates_coverLines hlines defaultThreshold "a\n\tb\n\n b".toList
    "b\n".toList
  refine ⟨hlines, hfound, ?_⟩
  rw [hfound] at hcovers
  obtain ⟨i, hi, haccepts⟩ := hcovers ⟨6, 2, .lineTrimmed, 1⟩ (by simp)
  exact ⟨i, hi, haccepts.1⟩

end Match

end Emend
