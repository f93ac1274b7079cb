import Emend.Proofs.WordMatches

/-!
# Ties between matches of words

A tie between matches of words is reported if there is more than one match
(`isSome_ambiguity_iff_of_forall`), which is the case if there are two occurrences one after the
other (`Match.isSome_ambiguity_findBest_iff`). There is one exception. Where the search text has a
line feed before its first word and one after its last word, two occurrences may stand at the end of
a line and at the start of the next one (`Occurrence.IsRightAbove`). The line feed between them
belongs to the match of the first one, so that no match of the second one can start with it
(`Occurrence.IsReadAs.not_isRightAbove`), and this tie is not reported (`Match.findBest_missesTie`).
-/

namespace Emend

namespace Match

variable {content search : Text} {c d : Candidate}

/-! ## Reported ties -/

/-- If all candidates have the same confidence, a tie is reported just if there is more than one. -/
theorem isSome_ambiguity_iff_of_forall {strategy : Strategy} {cs : List Candidate} {m : Match}
    {confidence : Rat} (hcs : ∀ c ∈ cs, c.confidence = confidence)
    (h : choose? content strategy cs = some m) : m.ambiguity.isSome = true ↔ 1 < cs.length := by
  rw [(isWinner_of_choose? h).isSome_ambiguity_iff, leaders_eq_self hcs]

namespace Occurrence

variable {o o' p : Occurrence content search}

/-! ## Occurrences on two lines, one after the other -/

/-- Nothing but a line end stands between an occurrence and another one: spaces and tabs, a line
feed, and the indentation of the other one. -/
def IsRightAbove (o o' : Occurrence content search) : Prop :=
  ∃ blanks indent, (∀ c ∈ blanks ++ indent, Text.isIndent c = true) ∧
    o'.front = o.front ++ (o.place ++ (blanks ++ '\n' :: indent))

/-- What stands before an occurrence and the occurrence itself reach up to where it stops. -/
theorem length_append_place (o : Occurrence content search) :
    (o.front ++ o.place).length = o.stop := List.length_append

/-- No other occurrence stops between two that stand on two lines, one after the other. -/
theorem IsRightAbove.of_stop_le (h : o.IsRightAbove o') (hstop : o.stop ≤ p.stop)
    (hle : p.stop ≤ o'.start) : p.IsRightAbove o' := by
  obtain ⟨blanks, indent, hindent, hfront⟩ := h
  obtain ⟨hblanks, hindent'⟩ := List.forall_mem_append.mp hindent
  have hspaces : ∀ c ∈ blanks ++ '\n' :: indent, Text.isSpace c = true :=
    List.forall_mem_append.mpr ⟨Text.forall_isSpace_of_isIndent hblanks,
      List.forall_mem_cons.mpr ⟨by decide, Text.forall_isSpace_of_isIndent hindent'⟩⟩
  rw [← List.append_assoc] at hfront
  have hparts : (p.front ++ p.place) ++ p.rest =
      (o.front ++ o.place) ++ ((blanks ++ '\n' :: indent) ++ (o'.place ++ o'.rest)) := by
    rw [← List.append_assoc (o.front ++ o.place), ← hfront, List.append_assoc, ← p.content_eq,
      ← o'.content_eq]
  -- Its last word would have to stop within the spaces between the two.
  have hlength : (p.front ++ p.place).length ≤ (o.front ++ o.place).length := by
    refine Text.length_le_of_endsWord hparts hspaces p.endsWord ?_
    rw [← List.length_append, ← hfront, p.length_append_place]
    exact hle
  have hsame : (p.front ++ p.place).length = (o.front ++ o.place).length := by
    rw [p.length_append_place, o.length_append_place] at hlength ⊢
    omega
  refine ⟨blanks, indent, hindent, ?_⟩
  rw [← List.append_assoc, (List.append_inj hparts hsame).1, hfront]

/-- Where a match covers an occurrence, it stops before the next one can be read, unless it takes
the line feed between two lines that the other one needs. -/
theorem IsCoveredBy.stop_le_of_not_isRightAbove {front spaces : Text} (ho : o.IsCoveredBy c)
    (hle : o.stop ≤ o'.start)
    (hapart : '\n' ∈ search.leadingSpaces → '\n' ∈ search.trailingSpaces → ¬o.IsRightAbove o')
    (hfront : o'.front = front ++ spaces)
    (hbefore : Edge.Before (front.length == 0) (Edge.ofSpaces search.leadingSpaces) spaces)
    (hline : Edge.ofSpaces search.leadingSpaces ≠ .line → spaces = []) :
    c.stop ≤ front.length := by
  obtain ⟨-, taken, rest, hrest, hstop, htaken⟩ := ho
  have hparts : (o.front ++ o.place) ++ (taken ++ rest) =
      front ++ (spaces ++ (o'.place ++ o'.rest)) := by
    rw [← List.append_assoc front, ← hfront, ← hrest, List.append_assoc, ← o.content_eq,
      ← o'.content_eq]
  rw [hstop]
  by_cases hedge : Edge.ofSpaces search.leadingSpaces = .line
  · -- The last word stops before the line feed, as nothing but spaces follows that.
    have hbehind : (o.front ++ o.place).length ≤ front.length := by
      refine Text.length_le_of_endsWord hparts hbefore.forall_isSpace o.endsWord ?_
      rw [← List.length_append, ← hfront, o.length_append_place]
      exact hle
    rw [hedge] at hbefore
    cases hbefore with
    | start hstart =>
      rw [o.length_append_place, beq_iff_eq.mp hstart] at hbehind
      have hpos := o.start_lt_stop
      omega
    | @line indent hindent =>
      obtain ⟨gap, rfl, hgap⟩ := Text.exists_gap hparts hbehind
      rcases htaken.length_le_or hgap with hbefore | ⟨hfeed, -, hblanks⟩
      · rw [List.length_append, o.length_append_place]
        omega
      · refine absurd ?_ (hapart (Edge.ofSpaces_eq_line_iff.mp hedge) hfeed)
        refine ⟨gap, indent, List.forall_mem_append.mpr ⟨hblanks, hindent⟩, ?_⟩
        rw [hfront, List.append_assoc, List.append_assoc]
  · obtain rfl := hline hedge
    rw [List.append_nil] at hfront
    rw [← hfront] at hparts ⊢
    have hbehind := Text.length_le_of_startsWord hparts htaken.forall_isSpace o'.startsWord (by
      rw [o.length_append_place]
      exact hle)
    rw [o.length_append_place] at hbehind
    exact hbehind

/-- Two occurrences on two lines, one after the other, do not both have a match if the search text
has a line feed before its words and after them. -/
theorem IsReadAs.not_isRightAbove (ho : o.IsReadAs c) (ho' : o'.IsReadAs d)
    (hle : c.stop ≤ d.position) (hlead : '\n' ∈ search.leadingSpaces)
    (htrail : '\n' ∈ search.trailingSpaces) : ¬o.IsRightAbove o' := by
  rintro ⟨blanks, indent, hindent, hfront⟩
  obtain ⟨hblanks, hindent⟩ := List.forall_mem_append.mp hindent
  have hcovers := ho.isCoveredBy.stop_le
  have hpos := o.start_lt_stop
  have hrest : o.rest = blanks ++ '\n' :: (indent ++ (o'.place ++ o'.rest)) := by
    have hcontent := o.content_eq.symm.trans o'.content_eq
    rw [hfront] at hcontent
    simpa only [List.append_assoc, List.cons_append, List.append_cancel_left_eq] using hcontent
  -- The first match stops after the line feed.
  have hstop := ho.stop_add
  rw [Edge.ofSpaces_eq_line_iff.mpr htrail, hrest, afterTrail_line hblanks] at hstop
  obtain ⟨⟨front, spaces, hfront', hposition, hbefore⟩, -⟩ := ho'
  have hlength : c.stop + indent.length = o'.front.length := by
    have hcontent := congrArg List.length o'.content_eq
    simp only [List.length_append] at hcontent hstop
    omega
  rw [Edge.ofSpaces_eq_line_iff.mpr hlead] at hbefore
  cases hbefore with
  | start hstart =>
    rw [beq_iff_eq.mp hstart] at hle
    omega
  | @line more hmore =>
    -- The second one would start with another line feed, which is not there.
    have hparts : (o.front ++ (o.place ++ (blanks ++ ['\n']))) ++ indent =
        front ++ '\n' :: more := by
      rw [← hfront', hfront]
      simp only [List.append_assoc, List.singleton_append]
    have hbehind : (o.front ++ (o.place ++ (blanks ++ ['\n']))).length ≤ front.length := by
      rw [hfront] at hlength
      simp only [List.length_append, List.length_cons, List.length_nil] at hlength ⊢
      omega
    obtain ⟨gap, -, rfl⟩ := Text.exists_gap hparts hbehind
    exact Text.lineFeed_notMem_of_isIndent hindent
      (List.mem_append_right gap List.mem_cons_self)

end Occurrence

/-- Two matches of words are read as occurrences one after the other. -/
theorem exists_apart_of_matches {cs : List Candidate}
    (h : whitespaceNormalized content search = c :: d :: cs) :
    ∃ o o' : Occurrence content search, o.stop ≤ o'.start ∧
      ('\n' ∈ search.leadingSpaces → '\n' ∈ search.trailingSpaces → ¬o.IsRightAbove o') := by
  have hmem (e : Candidate) (he : e ∈ c :: d :: cs) : e ∈ whitespaceNormalized content search :=
    h ▸ he
  have hpairwise := pairwise_whitespaceNormalized content search
  rw [h] at hpairwise
  have hapart : c.stop ≤ d.position := (List.rel_of_pairwise_cons hpairwise List.mem_cons_self).2
  obtain ⟨o, ho⟩ := exists_isReadAs (hmem c List.mem_cons_self)
  obtain ⟨o', ho'⟩ := exists_isReadAs (hmem d (List.mem_cons_of_mem c List.mem_cons_self))
  refine ⟨o, o', ?_, fun hlead htrail => ho.not_isRightAbove ho' hapart hlead htrail⟩
  calc o.stop ≤ c.stop := ho.isCoveredBy.stop_le
    _ ≤ d.position := hapart
    _ ≤ o'.start := ho'.isCoveredBy.position_le

/-- Two occurrences one after the other that do not both need the line feed between them do not
have a single match. -/
theorem whitespaceNormalized_ne_singleton {o o' : Occurrence content search}
    (hle : o.stop ≤ o'.start)
    (hapart : '\n' ∈ search.leadingSpaces → '\n' ∈ search.trailingSpaces → ¬o.IsRightAbove o')
    (c : Candidate) : whitespaceNormalized content search ≠ [c] := by
  intro h
  -- The match is that of the first occurrence, and it stops before the other one can be read.
  obtain ⟨first, hfirst⟩ := exists_isReadAs (h ▸ List.mem_singleton_self c)
  have hstop : first.stop ≤ o.stop := Occurrence.stop_mono (hfirst.start_le h o)
  obtain ⟨front, spaces, hfront, hbefore, hline⟩ := o'.exists_before
  have hbehind : c.stop ≤ front.length :=
    hfirst.isCoveredBy.stop_le_of_not_isRightAbove (hstop.trans hle)
      (fun hlead htrail habove => hapart hlead htrail (habove.of_stop_le hstop hle))
      hfront hbefore hline
  obtain ⟨d, hd, -, hcovers⟩ := o'.exists_mem hfront hbefore
  rw [h] at hd
  obtain rfl := List.mem_singleton.mp hd
  omega

/-- There is more than one match of words just if there are two occurrences one after the other that
do not both need the line feed between them. -/
theorem one_lt_length_whitespaceNormalized_iff (content search : Text) :
    1 < (whitespaceNormalized content search).length ↔
      ∃ o o' : Occurrence content search, o.stop ≤ o'.start ∧
        ('\n' ∈ search.leadingSpaces → '\n' ∈ search.trailingSpaces → ¬o.IsRightAbove o') := by
  match h : whitespaceNormalized content search with
  | [] =>
    refine iff_of_false (by simp) fun ⟨o, _⟩ => ?_
    exact (whitespaceNormalized_ne_nil_iff content search).mpr ⟨o⟩ h
  | [c] =>
    refine iff_of_false (by simp) fun ⟨o, o', hle, hapart⟩ => ?_
    exact whitespaceNormalized_ne_singleton hle hapart c h
  | c :: d :: cs => exact iff_of_true (by simp) (exists_apart_of_matches h)

/-- **Which ties between words are reported.** A tie is reported where words decide just if there are
two occurrences of the words of the search text, one after the other, but not if they stand on two
lines with nothing else between them and the search text has a line feed before its words and
another one after them. -/
theorem isSome_ambiguity_findBest_iff {strategies : List Strategy} {threshold : Binary64}
    {m : Match} (h : (findBest strategies threshold content search).value = some m)
    (hstrategy : m.candidate.strategy = .whitespaceNormalized) :
    m.ambiguity.isSome = true ↔
      ∃ o o' : Occurrence content search, o.stop ≤ o'.start ∧
        ('\n' ∈ search.leadingSpaces → '\n' ∈ search.trailingSpaces → ¬o.IsRightAbove o') := by
  obtain ⟨before, after, -, -, hchoice⟩ := choice_of_findBest h (hstrategy ▸ nofun)
  rw [hstrategy] at hchoice
  rw [isSome_ambiguity_iff_of_forall
    (fun c hc => confidence_of_mem_whitespaceNormalized hc) hchoice]
  exact one_lt_length_whitespaceNormalized_iff content search

/-- The tie is reported if an empty line stands between two occurrences. -/
theorem isSome_ambiguity_findBest_emptyLine :
    (findBest Strategy.all defaultThreshold "foo  bar\n\nfoo  bar\n".toList
      "\nfoo bar\n".toList).value =
        some ⟨⟨0, 9, .whitespaceNormalized, 1⟩, some ⟨2, 0, .search .whitespaceNormalized, 1⟩⟩ ∧
    ∃ o o' : Occurrence "foo  bar\n\nfoo  bar\n".toList "\nfoo bar\n".toList,
      o.stop ≤ o'.start ∧ ¬o.IsRightAbove o' := by
  have hfound : (findBest Strategy.all defaultThreshold "foo  bar\n\nfoo  bar\n".toList
      "\nfoo bar\n".toList).value =
        some ⟨⟨0, 9, .whitespaceNormalized, 1⟩,
          some ⟨2, 0, .search .whitespaceNormalized, 1⟩⟩ := by decide +kernel
  refine ⟨hfound, ?_⟩
  obtain ⟨o, o', hle, hapart⟩ := (isSome_ambiguity_findBest_iff hfound rfl).mp rfl
  exact ⟨o, o', hle, hapart (by decide) (by decide)⟩

/-- The tie is not reported if the two occurrences are on two lines, one after the other, and the
search text has a line feed before its words and after them. -/
theorem findBest_missesTie :
    (findBest Strategy.all defaultThreshold "foo  bar\nfoo  bar\n".toList
      "\nfoo bar\n".toList).value = some ⟨⟨0, 9, .whitespaceNormalized, 1⟩, none⟩ ∧
    ∃ o o' : Occurrence "foo  bar\nfoo  bar\n".toList "\nfoo bar\n".toList,
      o.stop ≤ o'.start := by
  have hspaced : Text.Spaced (Text.words "\nfoo bar\n".toList) "foo  bar".toList := by
    show Text.Spaced ["foo".toList, "bar".toList] ("foo".toList ++ ("  ".toList ++ "bar".toList))
    exact .cons _ (by decide) (List.all_eq_true.mp (by decide)) (.single _)
  refine ⟨by decide +kernel,
    ⟨[], "foo  bar".toList, "\nfoo  bar\n".toList, rfl, hspaced, fun _ => ?_⟩,
    ⟨"foo  bar\n".toList, "foo  bar".toList, "\n".toList, rfl, hspaced, fun _ => ?_⟩, ?_⟩
  · exact ⟨[], [], rfl, List.forall_mem_nil _, by decide⟩
  · exact ⟨"foo  bar\n".toList, [], rfl, List.forall_mem_nil _, by decide⟩
  · show 8 ≤ 9
    decide

end Match

end Emend
