import Emend.Proofs.SharedIndent
import Emend.Proofs.WindowOrder

/-!
# Windows at another indentation

The strategy that is agnostic of indentation finds the windows whose lines are those of the search
text but for a shift (`indentationAgnostic_eq_shifted`), as these are the ones with the same lines
without their indentation. Such lines are also the same without the spaces around each of them, so
that the strategy for trimmed lines finds the same windows, and more. In a list where this strategy
comes first, the other one has nothing left to find (`indentationAgnostic_idle`).
-/

namespace Emend

/-- Where a candidate starts and where it stops. -/
def Candidate.span (c : Candidate) : Nat × Nat := (c.position, c.stop)

namespace Match

variable {content search : Text}

/-- The windows with the lines of the search text without their indentation are those that are the
lines of the search text, shifted. -/
theorem sameLines_dedent (content search : Text) :
    sameLines Text.dedent content search = (windows search.bodyLines.length content).filter
      fun w => Text.ShiftedAlike w.lines search.bodyLines := by
  rw [sameLines_eq_filter Text.map_strip_dedent]
  refine List.filter_congr fun w _ => ?_
  rw [Bool.eq_iff_iff, beq_iff_eq, decide_eq_true_iff, Text.dedent_eq_iff]

/-- **The strategy that is agnostic of indentation finds the shifted windows.** Of the windows at
the lines of a document it finds those whose lines are the lines of the search text but for a shift,
in order. None of these is lost by trying the first line alone. -/
theorem indentationAgnostic_eq_shifted (content search : Text) :
    indentationAgnostic content search =
      (((List.range (content.bodyLines.length + 1 - search.bodyLines.length)).map
        (windowAt search.bodyLines.length content.bodyLines)).filter fun w =>
          Text.ShiftedAlike w.lines search.bodyLines).map
        (Window.candidate content search .indentationAgnostic 1) ∧
    ∀ w : Window, Text.ShiftedAlike w.lines search.bodyLines →
      (w.lines.headD []).strip = ((Text.dedent search.bodyLines).headD []).strip := by
  refine ⟨?_, fun w hshifted => ?_⟩
  · have hsize : 0 < search.bodyLines.length := List.length_pos_iff.mpr search.bodyLines_ne_nil
    rw [indentationAgnostic, sameLines_dedent, windows_eq_map_range hsize]
  · rw [Text.strip_headD, Text.strip_headD, ← hshifted.dedent_eq, Text.map_strip_dedent]

/-- Lines indented with spaces are found where they are indented with a tab, whatever spaces and
tabs the empty line between them holds, and the first of them passes the test. -/
theorem indentationAgnostic_eq_shifted_tabs :
    Text.ShiftedAlike ["\ta".toList, " \t".toList, "\t  b".toList]
      (Text.bodyLines "    a\n\n      b\n".toList) ∧
    Text.strip "\ta".toList =
      ((Text.dedent (Text.bodyLines "    a\n\n      b\n".toList)).headD []).strip ∧
    indentationAgnostic "x:\n\ta\n \t\n\t  b\n".toList "    a\n\n      b\n".toList =
      [⟨3, 11, .indentationAgnostic, 1⟩] := by
  obtain ⟨hfound, hfirst⟩ := indentationAgnostic_eq_shifted "x:\n\ta\n \t\n\t  b\n".toList
    "    a\n\n      b\n".toList
  have hshifted : Text.ShiftedAlike ["\ta".toList, " \t".toList, "\t  b".toList]
      (Text.bodyLines "    a\n\n      b\n".toList) := by decide
  refine ⟨hshifted, hfirst ⟨3, _⟩ hshifted, ?_⟩
  rw [hfound]
  decide +kernel

/-! ## After trimmed lines -/

/-- Windows with the same lines without their indentation have the same lines without the spaces
around each of them. -/
theorem sameLines_sublist (content search : Text) :
    (sameLines Text.dedent content search).Sublist
      (sameLines (List.map Text.strip) content search) := by
  rw [sameLines_eq_filter Text.map_strip_dedent, sameLines_eq_filter Text.map_strip_strip]
  refine List.monotone_filter_right _ fun w hw => ?_
  rw [beq_iff_eq] at hw ⊢
  rw [← Text.map_strip_dedent w.lines, hw, Text.map_strip_dedent]

/-- The spans of windows do not depend on the strategy that found them. -/
theorem span_indentationAgnostic_sublist (content search : Text) :
    ((indentationAgnostic content search).map Candidate.span).Sublist
      ((lineTrimmed content search).map Candidate.span) := by
  rw [indentationAgnostic, lineTrimmed, List.map_map, List.map_map]
  exact (sameLines_sublist content search).map _

/-- A strategy before the first occurrence of another one in a list stands before every occurrence
of that. -/
theorem mem_of_idxOf_lt {s t : Strategy} {before after : List Strategy}
    (h : (before ++ t :: after).idxOf s < (before ++ t :: after).idxOf t) : s ∈ before := by
  by_contra hs
  rw [List.idxOf_append_of_notMem hs] at h
  have hle : (before ++ t :: after).idxOf t ≤ before.length := by
    rw [List.idxOf_append]
    split
    · exact List.idxOf_le_length
    · rw [List.idxOf_cons_self, Nat.zero_add]
  omega

/-- **After trimmed lines the indentation does not matter.** The strategy that is agnostic of
indentation covers nothing that the one for trimmed lines does not cover, so that it decides no
search if the strategy for trimmed lines is tried before it, as it is where nothing else is said. -/
theorem indentationAgnostic_idle (content search : Text) :
    ((indentationAgnostic content search).map Candidate.span).Sublist
      ((lineTrimmed content search).map Candidate.span) ∧
    Strategy.all.idxOf .lineTrimmed < Strategy.all.idxOf .indentationAgnostic ∧
    ∀ strategies : List Strategy,
      strategies.idxOf .lineTrimmed < strategies.idxOf .indentationAgnostic →
      ∀ threshold m, (findBest strategies threshold content search).value = some m →
        m.candidate.strategy ≠ .indentationAgnostic := by
  refine ⟨span_indentationAgnostic_sublist content search, by decide, ?_⟩
  intro strategies hbefore threshold m hm hstrategy
  obtain ⟨before, after, rfl, hnone, hchoice⟩ := choice_of_findBest hm (hstrategy ▸ nofun)
  rw [hstrategy] at hbefore hchoice
  have htrimmed : lineTrimmed content search = [] := hnone _ (mem_of_idxOf_lt hbefore)
  have hsublist := span_indentationAgnostic_sublist content search
  rw [htrimmed, List.map_nil, List.sublist_nil, List.map_eq_nil_iff] at hsublist
  rw [candidates, hsublist] at hchoice
  cases hchoice

/-- An indented line that both strategies find is found by the one for trimmed lines. -/
theorem indentationAgnostic_idle_indented :
    [Strategy.lineTrimmed, .indentationAgnostic].idxOf .lineTrimmed <
      [Strategy.lineTrimmed, .indentationAgnostic].idxOf .indentationAgnostic ∧
    (findBest [.indentationAgnostic] defaultThreshold "  a\n".toList "a\n".toList).value =
      some ⟨⟨0, 4, .indentationAgnostic, 1⟩, none⟩ ∧
    ∃ m, (findBest [.lineTrimmed, .indentationAgnostic] defaultThreshold "  a\n".toList
      "a\n".toList).value = some m ∧ m.candidate.strategy ≠ .indentationAgnostic := by
  obtain ⟨-, -, hidle⟩ := indentationAgnostic_idle "  a\n".toList "a\n".toList
  have hbefore : [Strategy.lineTrimmed, .indentationAgnostic].idxOf .lineTrimmed <
      [Strategy.lineTrimmed, .indentationAgnostic].idxOf .indentationAgnostic := by decide
  exact ⟨hbefore, rfl, _, rfl, hidle _ hbefore defaultThreshold _ rfl⟩

end Match

end Emend
