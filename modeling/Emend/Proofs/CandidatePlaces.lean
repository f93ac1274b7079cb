import Emend.Proofs.Choice
import Emend.Proofs.FuzzyThreshold
import Emend.Proofs.SharedIndent
import Emend.Proofs.WrittenLines

/-!
# Where candidates stand

A match is one of the candidates of a listed strategy (`Match.candidate_of_locate`), so that what
all candidates of a strategy have in common holds of it; unless it is an exact one, it is what its
strategy chooses where no strategy before finds anything (`Match.choice_of_findBest`). The exact
strategy finds the search text itself somewhere (`exists_of_mem_exact`), the strategies for lines
find windows, which start where a line starts (`exists_of_mem_windows`), and a match of words starts
where its edge and its words can be read (`exists_of_mem_whitespaceNormalized`). A search text that
starts with a line feed is found by all of them where there is a line feed or a line starts
(`isTerminated_or_lineFeed`).
-/

namespace Emend

/-- The text that a candidate covers. -/
def Candidate.place (content : Text) (c : Candidate) : Text := (content.take c.stop).drop c.position

/-- A candidate covers what stands from its position on. -/
theorem Candidate.place_eq (content : Text) (c : Candidate) :
    c.place content = (content.drop c.position).take c.length := by
  rw [place, stop, List.drop_take, Nat.add_sub_cancel_left]

/-- A document is what stands before a candidate, what it covers and what stands after it. -/
theorem Candidate.append_place (content : Text) (c : Candidate) :
    content.take c.position ++ c.place content ++ content.drop c.stop = content := by
  rw [place_eq, stop, ← List.drop_drop, List.append_assoc, List.take_append_drop,
    List.take_append_drop]

/-- A candidate that stands after a part of a document and is as long as the next part covers that
one. -/
theorem Candidate.parts_of_eq_append {content front place rest : Text} {c : Candidate}
    (hcontent : content = front ++ (place ++ rest)) (hposition : c.position = front.length)
    (hlength : c.length = place.length) :
    content.take c.position = front ∧ c.place content = place ∧ content.drop c.stop = rest := by
  have hstop : c.stop = (front ++ place).length := by
    rw [stop, hposition, hlength, List.length_append]
  refine ⟨?_, ?_, ?_⟩
  · rw [hcontent, hposition, List.take_left]
  · rw [c.place_eq, hcontent, hposition, List.drop_left, hlength, List.take_left]
  · rw [hcontent, hstop, ← List.append_assoc, List.drop_left]

/-- It ends within the document. -/
theorem Candidate.stop_le_of_eq_append {content front place rest : Text} {c : Candidate}
    (hcontent : content = front ++ (place ++ rest)) (hposition : c.position = front.length)
    (hlength : c.length = place.length) : c.stop ≤ content.length := by
  rw [stop, hcontent, hposition, hlength, List.length_append, List.length_append, ← Nat.add_assoc]
  exact Nat.le_add_right _ _

/-- A spliced document has the fitted replacement in the place of the candidate. -/
theorem EditBlock.splice_eq (content search replacement : Text) (c : Candidate) :
    splice content search replacement c =
      content.take c.position ++ fitted replacement search (c.place content) c.strategy
        (startsLine content c.position (c.place content)) ++ content.drop c.stop := rfl

namespace Match

variable {content search : Text} {c : Candidate}

/-! ## Matches of words -/

/-- What is read as a match of words. -/
def readSearch (search : Text) (atStart : Bool) (t : Text) : Option Text :=
  (afterLead (Edge.ofSpaces search.leadingSpaces) search.words atStart t).map
    (afterTrail (Edge.ofSpaces search.trailingSpaces))

/-- The matches of words are the stretches that are read as such. -/
theorem whitespaceNormalized_eq (content : Text) (hwords : search.words ≠ []) :
    whitespaceNormalized content search = (stretches (readSearch search) 0 0 content).map fun s =>
      ⟨s.1, s.2, .whitespaceNormalized, 1⟩ := by
  unfold whitespaceNormalized
  dsimp only
  rw [if_neg (mt List.isEmpty_iff.mp hwords)]
  rfl

/-- There is no match without words. -/
theorem words_ne_nil_of_mem (h : c ∈ whitespaceNormalized content search) : search.words ≠ [] := by
  intro hwords
  unfold whitespaceNormalized at h
  rw [hwords] at h
  cases h

/-- A match of words is a stretch that is read as such. -/
theorem exists_stretch_of_mem (h : c ∈ whitespaceNormalized content search) :
    ∃ s ∈ stretches (readSearch search) 0 0 content, c = ⟨s.1, s.2, .whitespaceNormalized, 1⟩ := by
  rw [whitespaceNormalized_eq content (words_ne_nil_of_mem h)] at h
  obtain ⟨s, hs, rfl⟩ := List.mem_map.mp h
  exact ⟨s, hs, rfl⟩

/-- A match of words says so. -/
theorem strategy_of_mem_whitespaceNormalized (h : c ∈ whitespaceNormalized content search) :
    c.strategy = .whitespaceNormalized := by
  obtain ⟨s, -, rfl⟩ := exists_stretch_of_mem h
  rfl

/-- A match of words has full confidence. -/
theorem confidence_of_mem_whitespaceNormalized (h : c ∈ whitespaceNormalized content search) :
    c.confidence = 1 := by
  obtain ⟨s, -, rfl⟩ := exists_stretch_of_mem h
  rfl

/-! ## Searches -/

/-- The first strategy that makes a choice decides. -/
theorem firstMatch_cons (threshold : Binary64) (content search : Text) (s : Strategy)
    (ss : List Strategy) :
    (firstMatch threshold content search (s :: ss)).value =
      (choose? content s (candidates s threshold content search)).or
        (firstMatch threshold content search ss).value := by
  rw [firstMatch, Traced.value_bind]
  cases choose? content s (candidates s threshold content search) <;> rfl

/-- The first match is what the first strategy chooses that finds a candidate. -/
theorem firstMatch_eq_some_iff {threshold : Binary64} {strategies : List Strategy} {m : Match} :
    (firstMatch threshold content search strategies).value = some m ↔
      ∃ before s after, strategies = before ++ s :: after ∧
        (∀ r ∈ before, candidates r threshold content search = []) ∧
        choose? content s (candidates s threshold content search) = some m := by
  induction strategies with
  | nil => exact iff_of_false nofun fun ⟨before, s, after, h, _⟩ => by cases before <;> cases h
  | cons s ss ih =>
    rw [firstMatch_cons, Option.or_eq_some_iff]
    constructor
    · rintro (hchoice | ⟨hnone, hrest⟩)
      · exact ⟨[], s, ss, rfl, List.forall_mem_nil _, hchoice⟩
      · obtain ⟨before, r, after, rfl, hbefore, hchoice⟩ := ih.mp hrest
        exact ⟨s :: before, r, after, rfl,
          List.forall_mem_cons.mpr ⟨choose?_eq_none_iff.mp hnone, hbefore⟩, hchoice⟩
    · rintro ⟨before, r, after, heq, hbefore, hchoice⟩
      cases before with
      | nil =>
        cases heq
        exact .inl hchoice
      | cons t before =>
        cases heq
        obtain ⟨hnone, hbefore⟩ := List.forall_mem_cons.mp hbefore
        exact .inr ⟨choose?_eq_none_iff.mpr hnone,
          ih.mpr ⟨before, r, after, rfl, hbefore, hchoice⟩⟩

/-- The first match is a candidate of a listed strategy. -/
theorem candidate_of_firstMatch {threshold : Binary64} {strategies : List Strategy} {m : Match}
    (h : (firstMatch threshold content search strategies).value = some m) :
    ∃ s ∈ strategies, m.candidate ∈ candidates s threshold content search := by
  obtain ⟨before, s, after, rfl, -, hchoice⟩ := firstMatch_eq_some_iff.mp h
  exact ⟨s, List.mem_append_right before List.mem_cons_self, mem_of_choose? hchoice⟩

/-- A candidate says which strategy found it. -/
theorem strategy_of_mem_candidates {strategy : Strategy} {threshold : Binary64}
    (h : c ∈ candidates strategy threshold content search) : c.strategy = strategy := by
  cases strategy with
  | exact | lineTrimmed | indentationAgnostic =>
    obtain ⟨_, -, rfl⟩ := List.mem_map.mp h
    rfl
  | whitespaceNormalized => exact strategy_of_mem_whitespaceNormalized h
  | fuzzy =>
    obtain ⟨w, -, hw⟩ := List.mem_filterMap.mp h
    obtain ⟨ratio, -, rfl⟩ := Option.map_eq_some_iff.mp hw
    rfl

/-- A search text is located at its best match. -/
theorem locate_eq_ok_iff {threshold : Binary64} {strategies : List Strategy} {m : Match} :
    (locate strategies threshold content search).value = .ok m ↔
      (findBest strategies threshold content search).value = some m := by
  rw [locate, Traced.value_bind]
  cases (findBest strategies threshold content search).value with
  | none => exact iff_of_false nofun nofun
  | some m' => exact ⟨fun h => congrArg some (Except.ok.inj h), fun h => by cases h; rfl⟩

/-- A blank search text is found at the whole of a blank document, and any other one where the first
match is. -/
theorem findBest_eq_some_iff {threshold : Binary64} {strategies : List Strategy} {m : Match} :
    (findBest strategies threshold content search).value = some m ↔
      (search.isBlank = true ∧ content.isBlank = true ∧
        m = ⟨⟨0, content.length, .exact, 1⟩, none⟩) ∨
      (search.isBlank = false ∧
        (firstMatch threshold content search strategies).value = some m) := by
  unfold findBest
  cases search.isBlank with
  | false => exact ⟨fun h => .inr ⟨rfl, h⟩, fun h => (h.resolve_left nofun).2⟩
  | true =>
    rw [if_pos rfl]
    unfold blankMatch
    cases content.isBlank with
    | false =>
      refine iff_of_false nofun ?_
      rintro (⟨-, hcontent, -⟩ | ⟨hsearch, -⟩)
      · cases hcontent
      · cases hsearch
    | true =>
      constructor
      · exact fun h => .inl ⟨rfl, rfl, (Option.some.inj h).symm⟩
      · rintro (⟨-, -, rfl⟩ | ⟨hsearch, -⟩)
        · rfl
        · cases hsearch

/-- A match that is not an exact one is the choice of its strategy, before which no strategy finds a
candidate. -/
theorem choice_of_findBest {threshold : Binary64} {strategies : List Strategy} {m : Match}
    (h : (findBest strategies threshold content search).value = some m)
    (hstrategy : m.candidate.strategy ≠ .exact) :
    ∃ before after, strategies = before ++ m.candidate.strategy :: after ∧
      (∀ r ∈ before, candidates r threshold content search = []) ∧
      choose? content m.candidate.strategy
        (candidates m.candidate.strategy threshold content search) = some m := by
  rcases findBest_eq_some_iff.mp h with ⟨-, -, rfl⟩ | ⟨-, hfirst⟩
  · exact absurd rfl hstrategy
  · obtain ⟨before, s, after, rfl, hnone, hchoice⟩ := firstMatch_eq_some_iff.mp hfirst
    obtain rfl := strategy_of_mem_candidates (mem_of_choose? hchoice)
    exact ⟨before, after, rfl, hnone, hchoice⟩

/-- A search text is located at a candidate of a listed strategy, or it is blank and located at the
whole of a blank document. -/
theorem candidate_of_locate {threshold : Binary64} {strategies : List Strategy} {m : Match}
    (h : (locate strategies threshold content search).value = .ok m) :
    (search.isBlank = true ∧ content.isBlank = true ∧
      m.candidate = ⟨0, content.length, .exact, 1⟩) ∨
    (search.isBlank = false ∧
      ∃ s ∈ strategies, m.candidate ∈ candidates s threshold content search) := by
  rcases findBest_eq_some_iff.mp (locate_eq_ok_iff.mp h) with
    ⟨hsearch, hcontent, rfl⟩ | ⟨hsearch, hfirst⟩
  · exact .inl ⟨hsearch, hcontent, rfl⟩
  · exact .inr ⟨hsearch, candidate_of_firstMatch hfirst⟩

/-! ## The same characters -/

/-- A place at which a text goes on with a word has the word after it. -/
theorem exists_of_mem_placesFrom {word t : Text} {start place : Nat}
    (h : place ∈ placesFrom word start t) :
    ∃ front rest, t = front ++ (word ++ rest) ∧ place = start + front.length := by
  induction t generalizing start with
  | nil =>
    rw [placesFrom] at h
    split at h
    · next hword =>
      rw [List.isEmpty_iff.mp hword]
      exact ⟨[], [], rfl, List.mem_singleton.mp h⟩
    · cases h
  | cons c t ih =>
    -- A place in the rest of the text has one more character before it.
    have hlater : place ∈ placesFrom word (start + 1) t →
        ∃ front rest, c :: t = front ++ (word ++ rest) ∧ place = start + front.length := by
      intro h
      obtain ⟨front, rest, ht, hplace⟩ := ih h
      refine ⟨c :: front, rest, by rw [ht, List.cons_append], ?_⟩
      rw [hplace, List.length_cons]
      omega
    rw [placesFrom] at h
    split at h
    · next hstarts =>
      rcases List.mem_cons.mp h with rfl | h
      · obtain ⟨rest, hrest⟩ := Option.isSome_iff_exists.mp hstarts
        have hword : c :: t = word ++ rest := Text.after_eq_some_iff.mp hrest
        exact ⟨[], rest, hword, rfl⟩
      · exact hlater h
    · exact hlater h

/-- The exact strategy finds the search text itself. -/
theorem exists_of_mem_exact (h : c ∈ exact content search) :
    ∃ front rest, content = front ++ (search ++ rest) ∧
      c = ⟨front.length, search.length, .exact, 1⟩ := by
  obtain ⟨place, hplace, rfl⟩ := List.mem_map.mp h
  obtain ⟨front, rest, hcontent, hfront⟩ := exists_of_mem_placesFrom hplace
  rw [Nat.zero_add] at hfront
  exact ⟨front, rest, hcontent, by rw [hfront]⟩

/-! ## Windows of lines -/

/-- A window holds lines of its list, and starts after the lines before these. -/
theorem exists_of_mem_windowsFrom {size start : Nat} {ls : List Text} {w : Window}
    (h : w ∈ windowsFrom size start ls) :
    ∃ before after, ls = before ++ after ∧ after ≠ [] ∧ size ≤ after.length ∧
      w = ⟨start + Text.extent before, after.take size⟩ := by
  induction ls generalizing start with
  | nil => cases h
  | cons l ls ih =>
    rw [windowsFrom] at h
    split at h
    · cases h
    · next hsize =>
      rcases List.mem_cons.mp h with rfl | h
      · rw [List.length_take] at hsize
        exact ⟨[], l :: ls, rfl, List.cons_ne_nil l ls, by omega, rfl⟩
      · obtain ⟨before, after, rfl, hne, hle, rfl⟩ := ih h
        refine ⟨l :: before, after, rfl, hne, hle, ?_⟩
        have hextent : Text.extent (l :: before) = l.length + 1 + Text.extent before := rfl
        rw [hextent, ← Nat.add_assoc, Nat.add_assoc start]

/-- A window of a document holds lines of it and starts after the lines before them. -/
theorem exists_lines_of_mem_windows {size : Nat} {w : Window} (h : w ∈ windows size content) :
    ∃ before found after, content.bodyLines = before ++ (found ++ after) ∧ found ++ after ≠ [] ∧
      found.length = size ∧ w = ⟨Text.extent before, found⟩ := by
  obtain ⟨before, rest, hlines, hne, hle, rfl⟩ := exists_of_mem_windowsFrom h
  refine ⟨before, rest.take size, rest.drop size, ?_, ?_, ?_, ?_⟩
  · rw [List.take_append_drop]
    exact hlines
  · rw [List.take_append_drop]
    exact hne
  · rw [List.length_take, Nat.min_eq_left hle]
  · rw [Nat.zero_add]

/-- A window starts where a line of its document does. -/
theorem exists_of_mem_windows {size : Nat} {w : Window} (h : w ∈ windows size content) :
    ∃ before rest, content = Text.ended ['\n'] before ++ rest ∧
      w.start = (Text.ended ['\n'] before).length := by
  obtain ⟨before, found, after, hlines, hne, -, rfl⟩ := exists_lines_of_mem_windows h
  refine ⟨before, Text.written content.endsLine (found ++ after), ?_, ?_⟩
  · rw [← Text.written_append _ _ hne, ← hlines, Text.written_bodyLines]
  · rw [Text.length_ended]

/-- What changes nothing about lines but the spaces around them compares them as if it did so with
all of them at once: trying the first line before the others finds the same windows. -/
theorem sameLines_eq_filter {normal : List Text → List Text}
    (hnormal : ∀ ls, (normal ls).map Text.strip = ls.map Text.strip) (content search : Text) :
    sameLines normal content search = (windows search.bodyLines.length content).filter fun w =>
      normal w.lines == normal search.bodyLines := by
  have hlength : (normal search.bodyLines).length = search.bodyLines.length := by
    simpa using congrArg List.length (hnormal search.bodyLines)
  unfold sameLines
  dsimp only
  rw [hlength]
  refine List.filter_congr fun w _ => ?_
  cases hsame : normal w.lines == normal search.bodyLines with
  | false => rw [Bool.and_false]
  | true =>
    -- Lines that are the same in the end have the same first line without the spaces around it.
    rw [Bool.and_true, beq_iff_eq, Text.strip_headD, Text.strip_headD, ← hnormal,
      beq_iff_eq.mp hsame]

/-- So it finds the windows whose lines become the same as those of the search text. -/
theorem mem_sameLines_iff {normal : List Text → List Text}
    (hnormal : ∀ ls, (normal ls).map Text.strip = ls.map Text.strip) {w : Window} :
    w ∈ sameLines normal content search ↔ w ∈ windows search.bodyLines.length content ∧
      normal w.lines = normal search.bodyLines := by
  rw [sameLines_eq_filter hnormal, List.mem_filter, beq_iff_eq]

/-- The windows that the strategy for trimmed lines finds are those with the lines of the search
text without outer spaces. -/
theorem mem_sameLines_strip_iff {w : Window} :
    w ∈ sameLines (List.map Text.strip) content search ↔
      w ∈ windows search.bodyLines.length content ∧
        w.lines.map Text.strip = search.bodyLines.map Text.strip :=
  mem_sameLines_iff Text.map_strip_strip

/-- The lines of a window with the same lines as the search text become the same. -/
theorem normal_eq_of_mem_sameLines {normal : List Text → List Text} {w : Window}
    (h : w ∈ sameLines normal content search) : normal w.lines = normal search.bodyLines :=
  beq_iff_eq.mp (Bool.and_eq_true_iff.mp (List.mem_filter.mp h).2).2

/-- What a strategy for lines asks of the lines of a window before it finds them with some
confidence. -/
def Accepts (strategy : Strategy) (threshold : Binary64) (search : Text) (ls : List Text)
    (confidence : Rat) : Prop :=
  match strategy with
  | .lineTrimmed => ls.map Text.strip = search.bodyLines.map Text.strip ∧ confidence = 1
  | .indentationAgnostic => Text.dedent ls = Text.dedent search.bodyLines ∧ confidence = 1
  | .fuzzy => threshold.reachedBy confidence = true ∧
      confidence = Similarity.ratio (plainLines ls) (plainLines search.bodyLines)
  | .exact | .whitespaceNormalized => False

/-- Candidates that compare lines as what they become are made of the windows whose lines become the
same. -/
theorem mem_map_sameLines_iff {normal : List Text → List Text}
    (hnormal : ∀ ls, (normal ls).map Text.strip = ls.map Text.strip) {strategy : Strategy} :
    c ∈ (sameLines normal content search).map (Window.candidate content search strategy 1) ↔
      ∃ w ∈ windows search.bodyLines.length content, ∃ confidence,
        (normal w.lines = normal search.bodyLines ∧ confidence = 1) ∧
          c = w.candidate content search strategy confidence := by
  rw [List.mem_map]
  constructor
  · rintro ⟨w, hw, rfl⟩
    obtain ⟨hwindow, hsame⟩ := (mem_sameLines_iff hnormal).mp hw
    exact ⟨w, hwindow, 1, ⟨hsame, rfl⟩, rfl⟩
  · rintro ⟨w, hwindow, _, ⟨hsame, rfl⟩, rfl⟩
    exact ⟨w, (mem_sameLines_iff hnormal).mpr ⟨hwindow, hsame⟩, rfl⟩

/-- The candidates of a strategy for lines are made of the windows of as many lines as the search
text has which the strategy accepts. -/
theorem mem_candidates_iff {strategy : Strategy} {threshold : Binary64}
    (hlines : strategy.isLineBased = true) :
    c ∈ candidates strategy threshold content search ↔
      ∃ w ∈ windows search.bodyLines.length content, ∃ confidence,
        Accepts strategy threshold search w.lines confidence ∧
          c = w.candidate content search strategy confidence := by
  cases strategy with
  | exact => cases hlines
  | whitespaceNormalized => cases hlines
  | lineTrimmed => exact mem_map_sameLines_iff Text.map_strip_strip
  | indentationAgnostic => exact mem_map_sameLines_iff Text.map_strip_dedent
  | fuzzy =>
    rw [candidates, fuzzy, List.mem_filterMap]
    constructor
    · rintro ⟨w, hw, hc⟩
      obtain ⟨ratio, hratio, rfl⟩ := Option.map_eq_some_iff.mp hc
      rw [similarity?_eq, Option.ite_none_right_eq_some] at hratio
      obtain ⟨hreached, hsame⟩ := hratio
      cases hsame
      exact ⟨w, hw, _, ⟨hreached, rfl⟩, rfl⟩
    · rintro ⟨w, hw, _, ⟨hreached, rfl⟩, rfl⟩
      refine ⟨w, hw, ?_⟩
      rw [similarity?_eq, if_pos hreached]
      rfl

/-- Before a candidate of a strategy for lines a line ends. -/
theorem isTerminated_of_isLineBased {strategy : Strategy} {threshold : Binary64}
    (hlines : strategy.isLineBased = true) (h : c ∈ candidates strategy threshold content search) :
    Text.IsTerminated (content.take c.position) := by
  obtain ⟨w, hw, confidence, -, rfl⟩ := (mem_candidates_iff hlines).mp h
  obtain ⟨before, rest, rfl, hstart⟩ := exists_of_mem_windows hw
  have hposition : (w.candidate (Text.ended ['\n'] before ++ rest) search strategy
      confidence).position = (Text.ended ['\n'] before).length := hstart
  rw [hposition, List.take_left]
  exact Text.isTerminated_ended before

/-! ## Words -/

/-- A stretch of a text starts where it can be read, and covers what is read there. -/
theorem exists_of_mem_stretches {read : Bool → Text → Option Text} {start skip place size : Nat}
    {t : Text} (h : (place, size) ∈ stretches read start skip t) :
    ∃ front rest tail, t = front ++ rest ∧ place = start + front.length ∧
      read (place == 0) rest = some tail ∧ size = rest.length - tail.length := by
  induction t generalizing start skip with
  | nil => cases h
  | cons c t ih =>
    -- A stretch in the rest of the text has one more character before it.
    have hlater : ∀ skip, (place, size) ∈ stretches read (start + 1) skip t →
        ∃ front rest tail, c :: t = front ++ rest ∧ place = start + front.length ∧
          read (place == 0) rest = some tail ∧ size = rest.length - tail.length := by
      intro skip h
      obtain ⟨front, rest, tail, rfl, hplace, hread, hsize⟩ := ih h
      refine ⟨c :: front, rest, tail, rfl, ?_, hread, hsize⟩
      rw [hplace, List.length_cons]
      omega
    cases skip with
    | succ skip => exact hlater skip h
    | zero =>
      rw [stretches] at h
      split at h
      · next tail hread =>
        rcases List.mem_cons.mp h with heq | h
        · cases heq
          exact ⟨[], c :: t, tail, rfl, rfl, hread, rfl⟩
        · exact hlater _ h
      · exact hlater 0 h

/-- A match of words starts where its edge and its words can be read. -/
theorem exists_of_mem_whitespaceNormalized (h : c ∈ whitespaceNormalized content search) :
    ∃ front rest tail, content = front ++ rest ∧ c.position = front.length ∧
      afterLead (Edge.ofSpaces search.leadingSpaces) search.words (c.position == 0) rest =
        some tail ∧
      c.length =
        rest.length - (afterTrail (Edge.ofSpaces search.trailingSpaces) tail).length := by
  obtain ⟨⟨place, size⟩, hmem, rfl⟩ := exists_stretch_of_mem h
  obtain ⟨front, rest, tail, rfl, hplace, hread, rfl⟩ := exists_of_mem_stretches hmem
  obtain ⟨after, hlead, rfl⟩ := Option.map_eq_some_iff.mp hread
  exact ⟨front, rest, after, rfl, by rw [hplace, Nat.zero_add], hlead, rfl⟩

/-- Words after an edge with a line feed are read at the start of the document or at a line feed. -/
theorem lineFeed_of_afterLead {words : List Text} {atStart : Bool} {t tail : Text}
    (h : afterLead .line words atStart t = some tail) : atStart = true ∨ t.head? = some '\n' := by
  unfold afterLead at h
  dsimp only at h
  split at h
  · exact .inr rfl
  · split at h
    · next hstart => exact .inl hstart
    · cases h

/-! ## Search texts that start with a line feed -/

/-- The outer spaces of a text that starts with a line feed make an edge with a line feed. -/
theorem ofSpaces_leadingSpaces (h : search.head? = some '\n') :
    Edge.ofSpaces search.leadingSpaces = .line := by
  obtain ⟨t, rfl⟩ := List.head?_eq_some_iff.mp h
  rfl

/-- A search text that starts with a line feed is found where there is one, or where a line
starts. -/
theorem isTerminated_or_lineFeed {strategy : Strategy} {threshold : Binary64}
    (hhead : search.head? = some '\n') (h : c ∈ candidates strategy threshold content search) :
    Text.IsTerminated (content.take c.position) ∨
      (content.drop c.position).head? = some '\n' := by
  cases strategy with
  | exact =>
    obtain ⟨front, rest, rfl, rfl⟩ := exists_of_mem_exact h
    right
    rw [List.drop_left, List.head?_append, hhead, Option.some_or]
  | whitespaceNormalized =>
    obtain ⟨front, rest, tail, rfl, hposition, hlead, -⟩ := exists_of_mem_whitespaceNormalized h
    rw [ofSpaces_leadingSpaces hhead] at hlead
    rcases lineFeed_of_afterLead hlead with hzero | hrest
    · left
      rw [beq_iff_eq.mp hzero]
      exact .inl rfl
    · right
      rw [hposition, List.drop_left]
      exact hrest
  | lineTrimmed | indentationAgnostic | fuzzy => exact .inl (isTerminated_of_isLineBased rfl h)

end Match

end Emend
