import Emend.Proofs.FuzzyScan

/-!
# Full confidence

A window has full confidence just if its lines are those of the search text, without outer spaces
and with plain quotes. The longest common block of two texts is at least what both start with
(`length_shared_le_longest`), so that in a text compared with itself all characters match, and two
texts in which all characters match are equal (`two_mul_matched_eq_iff`). Lines that are put
together with line feeds between them are told apart again (`Text.unlines_inj`). So what the
strategy for trimmed lines finds has full confidence with the fuzzy strategy
(`fuzzy_of_lineTrimmed`). The rounded ratio is one only for equal texts as well, as long as the
texts are not longer than the significand of the format can tell (`ratio_eq_one_iff`).
-/

namespace Emend

namespace Text

variable {c : Char} {line : Text} {ls ms : List Text}

/-- What a text shares with itself is all of it. -/
theorem shared_self (t : Text) : shared t t = t := by
  induction t with
  | nil => rfl
  | cons c t ih => rw [shared, if_pos rfl, ih]

/-- Lines with a line feed between each two are put together in one way only. -/
theorem unlines_inj (hls : ∀ l ∈ ls, '\n' ∉ l) (hms : ∀ l ∈ ms, '\n' ∉ l) (hls' : ls ≠ [])
    (hms' : ms ≠ []) : unlines ls = unlines ms ↔ ls = ms := by
  have hlines {ks : List Text} (hks : ∀ l ∈ ks, '\n' ∉ l) (hne : ks ≠ []) :
      lines (unlines ks) = ks := by
    show lines (written false ks) = ks
    rw [lines_written hks (.inr hne)]
    rfl
  refine ⟨fun h => ?_, congrArg unlines⟩
  rw [← hlines hls hls', h, hlines hms hms']

/-- A text without its outer spaces is part of it. -/
theorem mem_of_mem_strip (h : c ∈ strip line) : c ∈ line := by
  rw [strip, stripEnd, List.mem_reverse] at h
  have hreverse := (List.dropWhile_sublist isSpace).subset h
  exact (List.dropWhile_sublist isSpace).subset (List.mem_reverse.mp hreverse)

end Text

namespace Similarity

variable {a b s t : Text} {i j : Nat} {best : Block}

/-! ## Texts in which all characters match -/

/-- A search of the second text finds nothing shorter than what it had. -/
theorem size_le_bestRight : best.size ≤ (bestRight s i j t best).size := by
  induction t generalizing j best with
  | nil => exact Nat.le_refl _
  | cons c t ih =>
    rw [bestRight]
    refine Nat.le_trans ?_ ih
    split_ifs with hlonger
    · exact hlonger.le
    · exact Nat.le_refl _

/-- Nor does a search of both texts. -/
theorem size_le_bestLeft : best.size ≤ (bestLeft b i s best).size := by
  induction s generalizing i best with
  | nil => exact Nat.le_refl _
  | cons c s ih => exact size_le_bestRight.trans ih

/-- The longest block is as long as what both texts start with, or longer. -/
theorem length_shared_le_longest (a b : Text) : (Text.shared a b).length ≤ (longest a b).size := by
  cases a with
  | nil => exact Nat.zero_le _
  | cons c a =>
    cases b with
    | nil => exact Nat.zero_le _
    | cons d b =>
      -- The first block that is tried is this one.
      have hfirst : (Text.shared (c :: a) (d :: b)).length ≤
          (bestRight (c :: a) 0 0 (d :: b) ⟨0, 0, 0⟩).size := by
        rw [bestRight]
        refine Nat.le_trans ?_ size_le_bestRight
        split_ifs with hlonger
        · exact Nat.le_refl _
        · exact Nat.not_lt.mp hlonger
      exact hfirst.trans size_le_bestLeft

/-- All characters of a text match those of the text itself. -/
theorem matched_self (a : Text) : matched a a = a.length := by
  refine Nat.le_antisymm ((matched_le_length a a).trans (min_le_left _ _)) ?_
  have hsize := length_shared_le_longest a a
  rw [Text.shared_self] at hsize
  rw [matched_eq]
  split_ifs <;> omega

/-- All characters of two texts match just if the texts are equal. -/
theorem two_mul_matched_eq_iff (a b : Text) :
    2 * matched a b = a.length + b.length ↔ a = b := by
  constructor
  · intro h
    have hle := matched_le_length a b
    obtain ⟨m, ha, hb, hm⟩ := exists_matched a b
    -- The matched characters are a part of both texts and as many as each of them has.
    have hleft : m = a := ha.eq_of_length (by omega)
    have hright : m = b := hb.eq_of_length (by omega)
    exact hleft.symm.trans hright
  · rintro rfl
    rw [matched_self, Nat.two_mul]

/-- The quotient is one just if all characters match. -/
theorem quotient_eq_one_iff {n total : Nat} (h : 2 * n ≤ total) :
    quotient n total = 1 ↔ 2 * n = total := by
  unfold quotient
  split_ifs with hnone
  · exact iff_of_true rfl (by omega)
  · rw [div_eq_one_iff_eq (Nat.cast_ne_zero.mpr hnone)]
    exact_mod_cast Iff.rfl

/-- A ratio is one if all characters match. -/
theorem ratio_eq_one (h : 2 * matched a b = a.length + b.length) : ratio a b = 1 := by
  rw [ratio, score_eq_nearest, (quotient_eq_one_iff h.le).mpr h, nearest_one]

/-- A ratio of texts that are not too long is one only if all characters match. -/
theorem ratio_eq_one_iff (hshort : a.length + b.length ≤ 2 ^ 53) :
    ratio a b = 1 ↔ 2 * matched a b = a.length + b.length := by
  refine ⟨fun hone => ?_, ratio_eq_one⟩
  by_contra hne
  have hle := matched_le_length a b
  have hfew : 2 * matched a b < a.length + b.length := by omega
  -- One character that does not match keeps the ratio below one.
  have hbelow : ratio a b ≤ belowOne := by
    have hnearest := nearest_div_le_belowOne hfew hshort
    rw [Nat.cast_mul, Nat.cast_ofNat] at hnearest
    rwa [ratio, score, if_neg (by omega)]
  have hlt : belowOne < 1 := by decide +kernel
  exact absurd hone (hbelow.trans_lt hlt).ne

end Similarity

namespace Match

variable {content search : Text} {w : Window}

/-! ## Windows -/

/-- A character with plain quotes is a line feed only if it was one. -/
theorem eq_lineFeed_of_plainQuote {c : Char} (h : plainQuote c = '\n') : c = '\n' := by
  unfold plainQuote at h
  split_ifs at h
  · exact absurd h (by decide)
  · exact absurd h (by decide)
  · exact h

/-- A line without line feeds has none as the fuzzy strategy compares it. -/
theorem lineFeed_notMem_plainLine {line : Text} (h : '\n' ∉ line) : '\n' ∉ plainLine line := by
  intro hmem
  obtain ⟨c, hc, heq⟩ := List.mem_map.mp hmem
  rw [eq_lineFeed_of_plainQuote heq] at hc
  exact h (Text.mem_of_mem_strip hc)

/-- Windows of so many lines are compared line by line. -/
theorem plainLines_eq_iff {ls ms : List Text} (hls : ∀ l ∈ ls, '\n' ∉ l)
    (hms : ∀ l ∈ ms, '\n' ∉ l) (hls' : ls ≠ []) (hms' : ms ≠ []) :
    plainLines ls = plainLines ms ↔ ls.map plainLine = ms.map plainLine := by
  have hplain {ks : List Text} (hks : ∀ l ∈ ks, '\n' ∉ l) : ∀ l ∈ ks.map plainLine, '\n' ∉ l :=
    List.forall_mem_map.mpr fun l hl => lineFeed_notMem_plainLine (hks l hl)
  exact Text.unlines_inj (hplain hls) (hplain hms) (by simpa using hls') (by simpa using hms')

/-- Lines that are the same without outer spaces are compared as the same. -/
theorem map_plainLine_of_strip {ls ms : List Text} (h : ls.map Text.strip = ms.map Text.strip) :
    ls.map plainLine = ms.map plainLine := by
  have hmap := congrArg (List.map (List.map plainQuote)) h
  rwa [List.map_map, List.map_map] at hmap

/-- All characters of a window match those of the search text just if its lines are the same without
outer spaces and with plain quotes. -/
theorem matched_window_iff (hw : w ∈ windows search.bodyLines.length content) :
    2 * Similarity.matched (plainLines w.lines) (plainLines search.bodyLines) =
        (plainLines w.lines).length + (plainLines search.bodyLines).length ↔
      w.lines.map plainLine = search.bodyLines.map plainLine := by
  obtain ⟨before, found, after, hlines, -, hlength, rfl⟩ := exists_lines_of_mem_windows hw
  have hsearch := search.bodyLines_ne_nil
  have hfound : found ≠ [] := by
    rintro rfl
    exact hsearch (List.length_eq_zero_iff.mp hlength.symm)
  have hfeeds : ∀ l ∈ found, '\n' ∉ l := fun l hl =>
    Text.lineFeed_notMem_of_mem_bodyLines (hlines ▸ List.mem_append_right _
      (List.mem_append_left _ hl))
  rw [Similarity.two_mul_matched_eq_iff]
  exact plainLines_eq_iff hfeeds (fun _ => Text.lineFeed_notMem_of_mem_bodyLines) hfound hsearch

/-- A window in which all characters match is found with full confidence. -/
theorem mem_fuzzy_of_matched {threshold : Binary64} (hthreshold : threshold.reachedBy 1 = true)
    (hw : w ∈ windows search.bodyLines.length content)
    (hall : 2 * Similarity.matched (plainLines w.lines) (plainLines search.bodyLines) =
      (plainLines w.lines).length + (plainLines search.bodyLines).length) :
    w.candidate content search .fuzzy 1 ∈ fuzzy threshold content search := by
  refine List.mem_filterMap.mpr ⟨w, hw, ?_⟩
  rw [similarity?_eq, Similarity.ratio_eq_one hall, if_pos hthreshold]
  rfl

/-- **Trimmed lines are found with full confidence.** What the strategy for trimmed lines finds, the
fuzzy strategy finds with confidence one, if its threshold is one or less. The lines of a window and
of the search text are compared without outer spaces and with plain quotes. All their characters
match just if the lines are the same. The ratio is one then, and for texts that are not longer than
the significand of the format can tell it is one only then. -/
theorem fuzzy_of_lineTrimmed (threshold : Binary64) (hthreshold : threshold.reachedBy 1 = true)
    (content search : Text) :
    (∀ c ∈ lineTrimmed content search,
      (⟨c.position, c.length, .fuzzy, 1⟩ : Candidate) ∈ fuzzy threshold content search) ∧
    ∀ w ∈ windows search.bodyLines.length content,
      let held := w.lines.map fun line => line.strip.map plainQuote
      let wanted := search.bodyLines.map fun line => line.strip.map plainQuote
      (2 * Similarity.matched (Text.unlines held) (Text.unlines wanted) =
          (Text.unlines held).length + (Text.unlines wanted).length ↔ held = wanted) ∧
      (held = wanted → Similarity.ratio (Text.unlines held) (Text.unlines wanted) = 1) ∧
      ((Text.unlines held).length + (Text.unlines wanted).length ≤ 2 ^ 53 →
        Similarity.ratio (Text.unlines held) (Text.unlines wanted) = 1 → held = wanted) := by
  refine ⟨fun c hc => ?_, fun w hw =>
    ⟨matched_window_iff hw, fun hsame => ?_, fun hshort hone => ?_⟩⟩
  · obtain ⟨w, hsame, rfl⟩ := List.mem_map.mp hc
    obtain ⟨hw, hlines⟩ := mem_sameLines_strip_iff.mp hsame
    exact mem_fuzzy_of_matched hthreshold hw
      ((matched_window_iff hw).mpr (map_plainLine_of_strip hlines))
  · exact Similarity.ratio_eq_one ((matched_window_iff hw).mpr hsame)
  · exact (matched_window_iff hw).mp ((Similarity.ratio_eq_one_iff hshort).mp hone)

/-- A line at another indentation is found with full confidence at the highest threshold, and a line
with typographic quotes matches as well as it. -/
theorem fuzzy_of_lineTrimmed_quotes :
    Binary64.reachedBy 1 (.finite false 1) = true ∧
    (⟨10, 10, .lineTrimmed, 1⟩ : Candidate) ∈
      lineTrimmed "  x = \u201ca\u201d\n\tx = \x22a\x22 \n".toList "x = \x22a\x22\n".toList ∧
    (⟨10, 10, .fuzzy, 1⟩ : Candidate) ∈ fuzzy (.finite false 1)
      "  x = \u201ca\u201d\n\tx = \x22a\x22 \n".toList "x = \x22a\x22\n".toList ∧
    Similarity.ratio (plainLines ["  x = \u201ca\u201d".toList])
      (plainLines ["x = \x22a\x22".toList]) = 1 := by
  have hthreshold : Binary64.reachedBy 1 (.finite false 1) = true := by decide
  have hfound : (⟨10, 10, .lineTrimmed, 1⟩ : Candidate) ∈
      lineTrimmed "  x = \u201ca\u201d\n\tx = \x22a\x22 \n".toList
        "x = \x22a\x22\n".toList := by decide
  obtain ⟨hsubsumes, hwindows⟩ := fuzzy_of_lineTrimmed (.finite false 1) hthreshold
    "  x = \u201ca\u201d\n\tx = \x22a\x22 \n".toList "x = \x22a\x22\n".toList
  refine ⟨hthreshold, hfound, hsubsumes _ hfound, ?_⟩
  exact (hwindows ⟨0, ["  x = \u201ca\u201d".toList]⟩ (by decide)).2.1 (by decide)

end Match

end Emend
