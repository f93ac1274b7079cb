import Emend.Proofs.WindowOffsets
import Emend.Proofs.WordMatches

/-!
# The best match

A search goes through the listed strategies up to the first that finds anything, and takes the
winner of what this one finds. All strategies find their candidates one after another
(`Match.pairwise_candidates`), so that the winner is the one match that is to be made of them
(`Match.choose?_eq_some_iff`), and all within the document (`Match.stop_le_of_mem_candidates`).
`Match.findBestByName_declared` is the whole search, by the names of the strategies.
-/

namespace Emend

namespace Match

variable {content search : Text} {c : Candidate} {strategy : Strategy} {threshold : Binary64}
  {strategies : List Strategy} {m : Match}

/-! ## The candidates of a strategy -/

/-- The places at which a text goes on with a word are found in order. -/
theorem pairwise_placesFrom (word : Text) (start : Nat) (t : Text) :
    (placesFrom word start t).Pairwise (· < ·) := by
  induction t generalizing start with
  | nil =>
    rw [placesFrom]
    split
    · exact List.pairwise_singleton _ _
    · exact .nil
  | cons c t ih =>
    rw [placesFrom]
    split
    · refine .cons (fun place hplace => ?_) (ih _)
      obtain ⟨front, -, -, rfl⟩ := exists_of_mem_placesFrom hplace
      omega
    · exact ih _

/-- The candidates of a strategy stand one after another. -/
theorem pairwise_candidates (strategy : Strategy) (threshold : Binary64) (content search : Text) :
    (candidates strategy threshold content search).Pairwise (·.position < ·.position) := by
  cases strategy with
  | exact => exact List.pairwise_map.mpr (pairwise_placesFrom search 0 content)
  | whitespaceNormalized => exact (pairwise_whitespaceNormalized content search).imp And.left
  | lineTrimmed | indentationAgnostic | fuzzy =>
    exact pairwise_of_isLineBased rfl threshold content search

/-- A candidate ends within its document. -/
theorem stop_le_of_mem_candidates (h : c ∈ candidates strategy threshold content search) :
    c.stop ≤ content.length := by
  cases strategy with
  | exact =>
    obtain ⟨front, rest, hcontent, rfl⟩ := exists_of_mem_exact h
    exact Candidate.stop_le_of_eq_append hcontent rfl rfl
  | whitespaceNormalized =>
    obtain ⟨o, ho⟩ := exists_isReadAs h
    exact Nat.le.intro ho.stop_add
  | lineTrimmed | indentationAgnostic | fuzzy =>
    obtain ⟨w, hw, confidence, -, rfl⟩ := (mem_candidates_iff rfl).mp h
    obtain ⟨i, hi, rfl⟩ := (mem_windows_iff (List.length_pos_iff.mpr search.bodyLines_ne_nil)).mp hw
    exact (coversLines_windowAt hi _ confidence).stop_le

/-! ## The search -/

/-- There is no first match just if no strategy finds a candidate. -/
theorem firstMatch_eq_none_iff : (firstMatch threshold content search strategies).value = none ↔
    ∀ s ∈ strategies, candidates s threshold content search = [] := by
  induction strategies with
  | nil => exact iff_of_true rfl (List.forall_mem_nil _)
  | cons s ss ih =>
    rw [firstMatch_cons, Option.or_eq_none_iff, choose?_eq_none_iff, ih, List.forall_mem_cons]

/-- A match ends within its document. -/
theorem stop_le_of_findBest (h : (findBest strategies threshold content search).value = some m) :
    m.candidate.stop ≤ content.length := by
  rcases findBest_eq_some_iff.mp h with ⟨-, -, rfl⟩ | ⟨-, hfirst⟩
  · exact (Nat.zero_add _).le
  · obtain ⟨s, -, hmem⟩ := candidate_of_firstMatch hfirst
    exact stop_le_of_mem_candidates hmem

/-- A search text is located at its best match, and where there is none, this is an error. -/
theorem locate_eq (strategies : List Strategy) (threshold : Binary64) (content search : Text) :
    (locate strategies threshold content search).value =
      (findBest strategies threshold content search).value.elim (.error ⟨strategies⟩) .ok := by
  rw [locate, Traced.value_bind]
  cases (findBest strategies threshold content search).value <;> rfl

/-- Names of strategies are read as these strategies. -/
theorem readNames_of_map {names : List Value}
    (h : names.map Strategy.ofValue = strategies.map .ok) :
    readNames names = (strategies, none) := by
  induction names generalizing strategies with
  | nil =>
    rw [List.map_eq_nil_iff.mp h.symm]
    rfl
  | cons v vs ih =>
    cases strategies with
    | nil => cases h
    | cons s ss =>
      obtain ⟨hv, hvs⟩ := List.cons_eq_cons.mp h
      rw [readNames, hv, ih hvs]

/-- A search by names of strategies finds what the search by these strategies does. -/
theorem findBestByName_of_map {names : List Value}
    (h : names.map Strategy.ofValue = strategies.map .ok) (threshold : Binary64)
    (content search : Text) :
    (findBestByName names threshold content search).value =
      .ok (findBest strategies threshold content search).value := by
  rw [findBestByName, readNames_of_map h, Traced.value_bind]
  cases (findBest strategies threshold content search).value <;> rfl

/-- **The declared match is found.** By the names of strategies a blank search text is found at the
whole of a blank document and in no other one. Any other search text is not found just if no listed
strategy has a candidate, and the match is otherwise the winner of the first strategy in the list
that has one. A match ends within the document, and where there is none, locating the search text
is an error. -/
theorem findBestByName_declared {names : List Value}
    (hnames : names.map Strategy.ofValue = strategies.map .ok) (threshold : Binary64)
    (content search : Text) :
    ∃ result : Option Match,
      (findBestByName names threshold content search).value = .ok result ∧
      (search.isBlank = true →
        result = if content.isBlank then some ⟨⟨0, content.length, .exact, 1⟩, none⟩ else none) ∧
      (search.isBlank = false →
        (result = none ↔ ∀ s ∈ strategies, candidates s threshold content search = []) ∧
        ∀ m, result = some m ↔ ∃ before s after, strategies = before ++ s :: after ∧
          (∀ r ∈ before, candidates r threshold content search = []) ∧
          IsWinner content s (candidates s threshold content search) m) ∧
      (∀ m, result = some m → m.candidate.stop ≤ content.length) ∧
      (locate strategies threshold content search).value =
        result.elim (.error ⟨strategies⟩) .ok := by
  refine ⟨_, findBestByName_of_map hnames threshold content search, fun hblank => ?_,
    fun hblank => ⟨?_, fun m => ?_⟩, fun m => stop_le_of_findBest, locate_eq _ _ _ _⟩
  · rw [findBest, if_pos hblank, blankMatch]
    split <;> rfl
  · rw [findBest, if_neg (Bool.eq_false_iff.mp hblank)]
    exact firstMatch_eq_none_iff
  · rw [findBest, if_neg (Bool.eq_false_iff.mp hblank), firstMatch_eq_some_iff]
    -- The candidates of each strategy stand one after another.
    have hchoice (s : Strategy) :
        choose? content s (candidates s threshold content search) = some m ↔
          IsWinner content s (candidates s threshold content search) m :=
      choose?_eq_some_iff (pairwise_candidates s threshold content search)
    simp only [hchoice]

/-- Two lines are found as well as each other by the second of two strategies, as the first one
finds nothing, and the earlier of them is used. -/
theorem findBestByName_declared_tie :
    [Value.text "exact".toList, .text "line-trimmed".toList].map Strategy.ofValue =
      [Strategy.exact, .lineTrimmed].map .ok ∧
    (findBestByName [.text "exact".toList, .text "line-trimmed".toList] defaultThreshold
      "x\n b \n\tb \n".toList "b\n".toList).value =
        .ok (some ⟨⟨2, 4, .lineTrimmed, 1⟩, some ⟨2, 2, .search .lineTrimmed, 2⟩⟩) ∧
    ∃ before s after, [Strategy.exact, .lineTrimmed] = before ++ s :: after ∧
      IsWinner "x\n b \n\tb \n".toList s
        (candidates s defaultThreshold "x\n b \n\tb \n".toList "b\n".toList)
        ⟨⟨2, 4, .lineTrimmed, 1⟩, some ⟨2, 2, .search .lineTrimmed, 2⟩⟩ := by
  have hnames : [Value.text "exact".toList, .text "line-trimmed".toList].map Strategy.ofValue =
      [Strategy.exact, .lineTrimmed].map .ok := by rfl
  have hfound : (findBestByName [.text "exact".toList, .text "line-trimmed".toList]
      defaultThreshold "x\n b \n\tb \n".toList "b\n".toList).value =
        .ok (some ⟨⟨2, 4, .lineTrimmed, 1⟩, some ⟨2, 2, .search .lineTrimmed, 2⟩⟩) := by
    rfl
  obtain ⟨result, hresult, -, hsearch, -⟩ := findBestByName_declared hnames defaultThreshold
    "x\n b \n\tb \n".toList "b\n".toList
  cases Except.ok.inj (hfound.symm.trans hresult)
  obtain ⟨before, s, after, hlist, -, hwinner⟩ := ((hsearch rfl).2 _).mp rfl
  exact ⟨hnames, hfound, before, s, after, hlist, hwinner⟩

end Match

end Emend
