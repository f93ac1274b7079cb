import Emend.Proofs.CoveredWords
import Emend.Proofs.DocumentEndings
import Emend.Proofs.WindowOffsets

/-!
# Replacing lines by lines

A strategy for lines finds some lines of a document, and a replacement of whole lines takes their
place. What is found is the text of these lines, with the line feed after them if there is one
(`Match.Window.candidate_parts`), and the fitted replacement is the text of its own lines, which are
moved and end as the found ones do (`EditBlock.exists_fitted_lines`). So lines are put in place of
lines (`EditBlock.exists_splice_lines`), as many as the replacement has, unless it loses the first
of them: the line feed that it starts with is left out where the search text starts with one and
the place does not (`EditBlock.splice_lines_iff`).
-/

namespace Emend

namespace Match

variable {content search : Text} {before found after : List Text} {strategy : Strategy}
  {confidence : Rat}

/-! ## Windows -/

/-- What a strategy for lines found is made of a window of as many lines as the search text has. -/
theorem exists_window_of_locate {threshold : Binary64} {strategies : List Strategy} {m : Match}
    (h : (locate strategies threshold content search).value = .ok m)
    (hlines : m.candidate.strategy.isLineBased = true) :
    ∃ w ∈ windows search.bodyLines.length content, ∃ confidence,
      m.candidate = w.candidate content search m.candidate.strategy confidence := by
  rcases candidate_of_locate h with ⟨-, -, hwhole⟩ | ⟨-, strategy, -, hmem⟩
  · rw [hwhole] at hlines
    cases hlines
  · rw [← strategy_of_mem_candidates hmem] at hmem
    obtain ⟨w, hw, confidence, -, hc⟩ := (mem_candidates_iff hlines).mp hmem
    exact ⟨w, hw, confidence, hc⟩

/-- If the search text ends with a line feed, a candidate for whole lines is as long as their text,
with the line feed after them if there is one. -/
theorem Window.length_candidate_of_endsLine {front rest : Text} {isEnded : Bool}
    (hcontent : content = front ++ (Text.written isEnded found ++ rest)) (hfound : found ≠ [])
    (hrest : isEnded = false → rest = []) (hsearch : search.endsLine = true) :
    (Window.candidate content search strategy confidence ⟨front.length, found⟩).length =
      (Text.written isEnded found).length := by
  rw [Text.written_eq_unlines isEnded hfound, List.append_assoc] at hcontent
  rw [Text.written_eq_unlines isEnded hfound]
  cases isEnded with
  | true =>
    rw [length_candidate hcontent (.inr rfl), feedOf, if_pos ⟨hsearch, rfl⟩]
    rfl
  | false =>
    obtain rfl := hrest rfl
    rw [length_candidate hcontent (.inl rfl), feedOf, if_neg fun h => nomatch h.2]
    rfl

/-- What stands before a candidate for whole lines, what it covers and what stands after it. -/
theorem Window.candidate_parts (hlines : content.bodyLines = before ++ (found ++ after))
    (hfound : found ≠ []) (hsearch : search.endsLine = true) {c : Candidate}
    (hc : c = Window.candidate content search strategy confidence ⟨Text.extent before, found⟩) :
    content.take c.position = Text.ended ['\n'] before ∧
      c.place content = Text.written (content.endsLine || !after.isEmpty) found ∧
      content.drop c.stop = Text.written content.endsLine after := by
  have hcontent := Text.written_bodyLines content
  rw [hlines, Text.written_append_append _ _ _ hfound] at hcontent
  rw [← Text.length_ended] at hc
  refine Candidate.parts_of_eq_append hcontent.symm (congrArg Candidate.position hc) ?_
  rw [hc]
  refine length_candidate_of_endsLine hcontent.symm hfound (fun h => ?_) hsearch
  obtain ⟨-, hafter⟩ := Bool.or_eq_false_iff.mp h
  rw [Bool.not_eq_false', List.isEmpty_iff] at hafter
  rw [hafter, Text.written_nil]

end Match

namespace EditBlock

variable {content search place : Text} {before found after ls : List Text} {isEnded : Bool}
  {strategy : Strategy} {confidence : Rat}

/-! ## Fitted lines -/

/-- The line feed that a replacement starts with is left out: the search text starts with one, the
place does not, and the replacement does still when a place that ends no line has taken the last
line feed off. -/
def LosesFirstFeed (replacement search place : Text) : Prop :=
  (search.head? = some '\n' ∧ place.head? ≠ some '\n') ∧
    replacement.head? = some '\n' ∧ (place.endsLine = true ∨ replacement ≠ ['\n'])

instance (replacement search place : Text) : Decidable (LosesFirstFeed replacement search place) :=
  inferInstanceAs (Decidable ((_ ∧ _) ∧ _))

/-- Lines whose text starts with a line feed have an empty one first. -/
theorem exists_of_head?_ended (hls : ∀ l ∈ ls, '\n' ∉ l)
    (h : (Text.ended ['\n'] ls).head? = some '\n') : ∃ rest, ls = [] :: rest := by
  cases ls with
  | nil => cases h
  | cons l rest =>
    cases l with
    | nil => exact ⟨rest, rfl⟩
    | cons c l =>
      obtain rfl : c = '\n' := Option.some.inj h
      exact absurd List.mem_cons_self (hls _ List.mem_cons_self)

/-- Lines that lose their first line feed have an empty line first, and others after it unless the
place ends a line. -/
theorem LosesFirstFeed.exists_rest (hls : ∀ l ∈ ls, '\n' ∉ l)
    (h : LosesFirstFeed (Text.ended ['\n'] ls) search place) :
    ∃ rest, ls = [] :: rest ∧ (place.endsLine = true ∨ rest ≠ []) := by
  obtain ⟨-, hhead, hend⟩ := h
  obtain ⟨rest, rfl⟩ := exists_of_head?_ended hls hhead
  refine ⟨rest, rfl, hend.imp_right fun hne hrest => hne ?_⟩
  rw [hrest]
  rfl

/-- If the text of lines starts with a line feed, then it does with a line feed after the last of
them as well, and has more than that. -/
theorem head?_ended_of_written (h : (Text.written isEnded ls).head? = some '\n') :
    (Text.ended ['\n'] ls).head? = some '\n' ∧
      (isEnded = true ∨ Text.ended ['\n'] ls ≠ ['\n']) := by
  cases isEnded with
  | true => exact ⟨h, .inl rfl⟩
  | false =>
    have hne : ls ≠ [] := by
      rintro rfl
      cases h
    have hended : Text.written false ls ++ ['\n'] = Text.ended ['\n'] ls :=
      Text.join_append_sep ['\n'] hne
    rw [← hended]
    refine ⟨?_, .inr fun hfeed => ?_⟩
    · rw [List.head?_append, h, Option.some_or]
    · have hnil : Text.written false ls = [] := List.append_left_eq_self.mp hfeed
      rw [hnil] at h
      cases h

/-- The lines of a replacement that are left when its edges are trimmed. -/
def keptLines (ls : List Text) (search place : Text) : List Text :=
  if LosesFirstFeed (Text.ended ['\n'] ls) search place then ls.tail else ls

/-- Of no lines none are left. -/
theorem keptLines_nil : keptLines [] search place = [] := ite_self _

/-- No line is left only of no lines, unless the place ends a line. -/
theorem eq_nil_of_keptLines (hls : ∀ l ∈ ls, '\n' ∉ l) (hplace : place.endsLine = false)
    (h : keptLines ls search place = []) : ls = [] := by
  unfold keptLines at h
  split at h
  · next hloses =>
    obtain ⟨rest, rfl, hend | hrest⟩ := hloses.exists_rest hls
    · rw [hplace] at hend
      cases hend
    · exact absurd h hrest
  · exact h

/-- The text of lines ends as the place does when its edges are trimmed, and it may lose its first
line. -/
theorem trimEdges_ended (hls : ∀ l ∈ ls, '\n' ∉ l) (hsearch : search.endsLine = true)
    (hplace : place.endsLine = isEnded) :
    trimEdges (Text.ended ['\n'] ls) search place =
      Text.written isEnded (keptLines ls search place) := by
  have hlast : (if (search.endsLine && !place.endsLine &&
        Text.endsLine (Text.ended ['\n'] ls)) = true
      then (Text.ended ['\n'] ls).dropLast else Text.ended ['\n'] ls) =
        Text.written isEnded ls := by
    rw [hsearch, hplace, Bool.true_and]
    cases isEnded with
    | true => rfl
    | false =>
      by_cases hne : ls = []
      · rw [hne]
        rfl
      · rw [Text.endsLine_ended hne, ← Text.join_append_sep ['\n'] hne, List.dropLast_concat]
        rfl
  unfold trimEdges keptLines
  dsimp only
  rw [hlast]
  by_cases hloses : LosesFirstFeed (Text.ended ['\n'] ls) search place
  · rw [if_pos hloses]
    obtain ⟨rest, rfl, hrest⟩ := hloses.exists_rest hls
    rw [Text.written_cons (hplace ▸ hrest), if_pos (by simp [hloses.1])]
    rfl
  · rw [if_neg hloses]
    refine if_neg fun hcond => hloses ?_
    rw [Bool.and_eq_true, Bool.and_eq_true, beq_iff_eq, bne_iff_ne, beq_iff_eq] at hcond
    obtain ⟨hhead, hend⟩ := head?_ended_of_written hcond.2
    exact ⟨hcond.1, hhead, hend.imp_left hplace.trans⟩

/-- The text of lines that is fitted to a place is that of the lines that are left, which are moved,
and ends as the place does. -/
theorem exists_fitted_lines (hls : ∀ l ∈ ls, '\n' ∉ l) (hsearch : search.endsLine = true)
    (hplace : place.endsLine = isEnded) (strategy : Strategy) (atLineStart : Bool) :
    ∃ put : List Text,
      put.map Text.afterIndent = (keptLines ls search place).map Text.afterIndent ∧
      fitted (Text.ended ['\n'] ls) search place strategy atLineStart =
        Text.written isEnded put := by
  have hkept : ∀ l ∈ keptLines ls search place, '\n' ∉ l := by
    unfold keptLines
    split
    · exact fun l hl => hls l (List.mem_of_mem_tail hl)
    · exact hls
  have htrimmed := trimEdges_ended hls hsearch hplace
  rcases fitted_eq_or (Text.ended ['\n'] ls) search place strategy atLineStart with
    hfitted | ⟨inner, outer, hinner, houter, hfitted⟩
  · exact ⟨_, rfl, hfitted.trans htrimmed⟩
  · refine ⟨(keptLines ls search place).map (Text.moveIndent inner outer), ?_, ?_⟩
    · rw [List.map_map]
      exact List.map_congr_left fun l _ => Text.afterIndent_moveIndent hinner houter l
    · rw [hfitted, htrimmed, Text.moveLines_written _ hkept]

/-! ## Spliced lines -/

/-- Whether the last line has a line feed after it when lines are put into a document in place of
others: if the document has it, or nothing stands where its last lines were. -/
def endsAfter (content : Text) (ls after : List Text) : Bool :=
  content.endsLine || (after.isEmpty && ls.isEmpty)

/-- Lines in place of lines: those that are left of a replacement of whole lines take the place of
those that were found, moved to another indentation, and all other lines stay. -/
theorem exists_splice_lines (hlines : content.bodyLines = before ++ (found ++ after))
    (hfound : found ≠ []) (hls : ∀ l ∈ ls, '\n' ∉ l) (hsearch : search.endsLine = true)
    {c : Candidate}
    (hc : c = Match.Window.candidate content search strategy confidence
      ⟨Text.extent before, found⟩) :
    ∃ put : List Text,
      put.map Text.afterIndent = (keptLines ls search (c.place content)).map Text.afterIndent ∧
      splice content search (Text.ended ['\n'] ls) c =
        Text.written (endsAfter content ls after) (before ++ (put ++ after)) := by
  obtain ⟨hbefore, hplace, hafter⟩ := Match.Window.candidate_parts hlines hfound hsearch hc
  have hend := Text.endsLine_written_of_bodyLines hlines hfound
  rw [← hplace] at hend
  obtain ⟨put, hput, hfitted⟩ := exists_fitted_lines hls hsearch hend c.strategy
    (startsLine content c.position (c.place content))
  refine ⟨put, hput, ?_⟩
  rw [splice_eq, hbefore, hfitted, hafter, List.append_assoc]
  unfold endsAfter
  by_cases hnil : after = []
  · subst hnil
    rw [List.isEmpty_nil, Bool.not_true, Bool.or_false] at hend
    rw [List.isEmpty_nil, Bool.not_true, Bool.or_false, Bool.true_and, Text.written_nil,
      List.append_nil, List.append_nil]
    by_cases hnone : put = []
    · -- Where nothing is put in, the lines before it are ended as they were.
      have hended : (content.endsLine || ls.isEmpty) = true := by
        cases hcontent : content.endsLine with
        | true => rfl
        | false =>
          have hkept : keptLines ls search (c.place content) = [] := by
            rw [← List.map_eq_nil_iff, ← hput, hnone, List.map_nil]
          rw [eq_nil_of_keptLines hls (hend.trans hcontent) hkept]
          rfl
      rw [hended, hnone, Text.written_nil, List.append_nil, List.append_nil]
      rfl
    · have hne : ls.isEmpty = false := by
        rw [List.isEmpty_eq_false_iff]
        rintro rfl
        rw [keptLines_nil, List.map_nil, List.map_eq_nil_iff] at hput
        exact hnone hput
      rw [hne, Bool.or_false, Text.written_append _ _ hnone]
  · rw [List.isEmpty_eq_false_iff.mpr hnil, Bool.false_and, Bool.or_false, Bool.not_false,
      Bool.or_true, ← List.append_assoc before, Text.written_append _ _ hnil, ← List.append_assoc]
    exact congrArg (· ++ _) List.flatMap_append.symm

/-- The lines of a replacement take the place of those that were found, moved to another
indentation, and all other lines stay, just if the replacement does not lose its first line feed. -/
theorem splice_lines_iff (hlines : content.bodyLines = before ++ (found ++ after))
    (hfound : found ≠ []) (hls : ∀ l ∈ ls, '\n' ∉ l) (hsearch : search.endsLine = true)
    {c : Candidate}
    (hc : c = Match.Window.candidate content search strategy confidence
      ⟨Text.extent before, found⟩) :
    (∃ put : List Text, put.map Text.afterIndent = ls.map Text.afterIndent ∧
      splice content search (Text.ended ['\n'] ls) c =
        Text.written (endsAfter content ls after) (before ++ (put ++ after))) ↔
      ¬LosesFirstFeed (Text.ended ['\n'] ls) search (c.place content) := by
  obtain ⟨put', hput', hsplice'⟩ := exists_splice_lines hlines hfound hls hsearch hc
  constructor
  · rintro ⟨put, hput, hsplice⟩ hloses
    obtain ⟨rest, rfl, hrest⟩ := hloses.exists_rest hls
    rw [keptLines, if_pos hloses] at hput'
    replace hput' : put'.map Text.afterIndent = rest.map Text.afterIndent := hput'
    have hlength : put.length = rest.length + 1 := by
      simpa using congrArg List.length hput
    have hlength' : put'.length = rest.length := by
      simpa using congrArg List.length hput'
    -- The two texts are equal, but one of them has a line more.
    have hbody : ∀ l ∈ before ++ (found ++ after), '\n' ∉ l := fun l hl =>
      Text.lineFeed_notMem_of_mem_bodyLines (hlines ▸ hl)
    have hfeeds : ∀ p : List Text, (∀ l ∈ p, '\n' ∉ l) →
        ∀ l ∈ before ++ (p ++ after), '\n' ∉ l := by
      intro p hp
      rw [List.forall_mem_append, List.forall_mem_append] at hbody ⊢
      exact ⟨hbody.1, hp, hbody.2.2⟩
    have hsome : endsAfter content ([] :: rest) after = true ∨
        before ++ (put ++ after) ≠ [] ∧ before ++ (put' ++ after) ≠ [] := by
      obtain ⟨-, hplace, -⟩ := Match.Window.candidate_parts hlines hfound hsearch hc
      rw [hplace, Text.endsLine_written_of_bodyLines hlines hfound, Bool.or_eq_true,
        Bool.not_eq_true', List.isEmpty_eq_false_iff] at hrest
      have hput : put ≠ [] := List.ne_nil_of_length_eq_add_one hlength
      rcases hrest with (hend | hafter) | hrest
      · rw [endsAfter, hend]
        exact .inl rfl
      · simp [hafter]
      · have hput' : put' ≠ [] := by
          rintro rfl
          exact hrest (List.length_eq_zero_iff.mp hlength'.symm)
        simp [hput, hput']
    have hsame := Text.length_eq_of_written_eq
      (hfeeds put (Text.lineFeed_notMem_of_map_afterIndent hput hls))
      (hfeeds put' (Text.lineFeed_notMem_of_map_afterIndent hput'
        fun l hl => hls l (List.mem_cons_of_mem _ hl))) hsome (hsplice.symm.trans hsplice')
    simp only [List.length_append] at hsame
    omega
  · intro hkeeps
    rw [keptLines, if_neg hkeeps] at hput'
    exact ⟨put', hput', hsplice'⟩

/-- **Lines in place of lines.** A block whose search text ends with a line feed and whose
replacement is whole lines is applied, after the blocks before it, through a strategy for lines. It
stands at as many lines of the document as the search text has, and the new document is the text of
the lines before these, of the lines of the replacement with another indentation, one for each, and
of the lines after them, just if the replacement does not lose the line feed that it starts with. -/
theorem applyAll_lines_iff (options : Options) {content : Text} (hcontent : '\r' ∉ content)
    {blocks : List EditBlock} {s : Text} {t : Tally}
    (hrun : ((batch options .lf).run options.strict options.telemetry content (.initial [])
      blocks).value = .finished s t)
    {b : EditBlock} (hsearch : b.search.endsLine = true) (hb : b.replacement.IsTerminated)
    {p : Placement Text} (hp : (attempt options s b).value = .placed p) :
    (applyAll options content (blocks ++ [b])).value.content = p.next ∧
    ∃ m, (Match.locate options.strategies options.threshold s b.search.unifyEndings).value = .ok m ∧
      (m.candidate.strategy.isLineBased = true → ∃ before found after,
        s.bodyLines = before ++ (found ++ after) ∧
        found.length = b.search.unifyEndings.bodyLines.length ∧
        m.candidate.position = Text.extent before ∧
        ((∃ put : List Text, put.map Text.afterIndent =
              b.replacement.unifyEndings.wholeLines.map Text.afterIndent ∧
            p.next = Text.written (endsAfter s b.replacement.unifyEndings.wholeLines after)
              (before ++ (put ++ after))) ↔
          ¬LosesFirstFeed b.replacement.unifyEndings b.search.unifyEndings
            (m.candidate.place s))) := by
  refine ⟨applyAll_concat_of_notMem options hcontent hrun hp, ?_⟩
  obtain ⟨m, hm, rfl⟩ := placement_of_attempt hp
  refine ⟨m, hm, fun hlineBased => ?_⟩
  obtain ⟨w, hw, confidence, hc⟩ := Match.exists_window_of_locate hm hlineBased
  obtain ⟨before, found, after, hlines, -, hlength, rfl⟩ := Match.exists_lines_of_mem_windows hw
  refine ⟨before, found, after, hlines, hlength, congrArg Candidate.position hc, ?_⟩
  have hfound : found ≠ [] := by
    rintro rfl
    exact Text.bodyLines_ne_nil _ (List.length_eq_zero_iff.mp hlength.symm)
  have hends : b.search.unifyEndings.endsLine = true := by
    refine (Text.IsTerminated.of_endsLine hsearch).unifyEndings.resolve_left fun hnil => ?_
    rw [Text.unifyEndings_eq_nil_iff.mp hnil] at hsearch
    cases hsearch
  have hplain : ∀ l ∈ b.replacement.unifyEndings.wholeLines, '\n' ∉ l :=
    fun _ => Text.lineFeed_notMem_of_mem_wholeLines
  have hsplice := splice_lines_iff hlines hfound hplain hends hc
  rw [hb.unifyEndings.ended_wholeLines] at hsplice
  exact hsplice

/-- A search text that starts with an empty line is found at one, so that the replacement keeps its
own. Its lines are moved with the indentation that they have among themselves. -/
theorem applyAll_lines_emptyFirst :
    '\r' ∉ "x\n\n  foo\ny\n".toList ∧ Text.endsLine "\nfoo\n".toList = true ∧
    Text.IsTerminated "\nbar\n  baz\n".toList ∧
    (applyAll .default "x\n\n  foo\ny\n".toList ([⟨0, "y\n".toList, "z\n".toList⟩] ++
      [⟨1, "\nfoo\n".toList, "\nbar\n  baz\n".toList⟩])).value.content =
        "x\n\n  bar\n    baz\nz\n".toList ∧
    ∃ before found after put : List Text,
      Text.bodyLines "x\n\n  foo\nz\n".toList = before ++ (found ++ after) ∧ found.length = 2 ∧
      Text.extent before = 2 ∧
      put.map Text.afterIndent = [[], "bar".toList, "  baz".toList].map Text.afterIndent ∧
      "x\n\n  bar\n    baz\nz\n".toList = Text.written true (before ++ (put ++ after)) := by
  have hfeeds : '\r' ∉ "x\n\n  foo\ny\n".toList := by decide
  have hended : Text.IsTerminated "\nbar\n  baz\n".toList := by decide
  obtain ⟨t, hrun⟩ : ∃ t, ((batch .default .lf).run false false "x\n\n  foo\ny\n".toList
      (.initial []) [⟨0, "y\n".toList, "z\n".toList⟩]).value =
        .finished "x\n\n  foo\nz\n".toList t := ⟨_, rfl⟩
  obtain ⟨p, hp, hnext⟩ : ∃ p, (attempt .default "x\n\n  foo\nz\n".toList
      ⟨1, "\nfoo\n".toList, "\nbar\n  baz\n".toList⟩).value = .placed p ∧
        p.next = "x\n\n  bar\n    baz\nz\n".toList := ⟨_, rfl, rfl⟩
  have hfound : (Match.locate Options.default.strategies Options.default.threshold
      "x\n\n  foo\nz\n".toList "\nfoo\n".toList).value =
        .ok ⟨⟨2, 7, .lineTrimmed, 1⟩, none⟩ := rfl
  obtain ⟨hcontent, m, hm, hlineBased⟩ := applyAll_lines_iff .default hfeeds hrun rfl hended hp
  obtain rfl : (⟨⟨2, 7, .lineTrimmed, 1⟩, none⟩ : Match) = m := Except.ok.inj (hfound.symm.trans hm)
  obtain ⟨before, found, after, hlines, hlength, hposition, hput⟩ := hlineBased rfl
  obtain ⟨put, hmoved, hwritten⟩ := hput.mpr (by decide)
  rw [hnext] at hcontent hwritten
  exact ⟨hfeeds, rfl, hended, hcontent, before, found, after, put, hlines, hlength, hposition.symm,
    hmoved, hwritten⟩

end EditBlock

namespace Edit

/-- A replacement loses its first line where the line of the document that stands for the empty one
of the search text has a space: the two lines that are found become one, and not the two of the
replacement. -/
theorem applyBlocks_losesEmptyLine :
    (Match.locate Options.default.strategies Options.default.threshold "x\n \n foo\n".toList
      "\nfoo\n".toList).value = .ok ⟨⟨2, 7, .lineTrimmed, 1⟩, none⟩ ∧
    Candidate.place "x\n \n foo\n".toList ⟨2, 7, .lineTrimmed, 1⟩ = " \n foo\n".toList ∧
    (∃ o, (applyBlocks "x\n \n foo\n".toList
        "<<<<<<< SEARCH\n\nfoo\n=======\n\nbar\n>>>>>>> REPLACE\n".toList (.ok .default)).value =
          .ok o ∧
      o.applied = 1 ∧ o.content = "x\n bar\n".toList) ∧
    ∀ put : List Text, put.map Text.afterIndent = [[], "bar".toList].map Text.afterIndent →
      "x\n bar\n".toList ≠ Text.written true (["x".toList] ++ (put ++ [])) := by
  refine ⟨rfl, by decide, ⟨_, rfl, by decide +kernel, by decide +kernel⟩, fun put hput heq => ?_⟩
  have hlength : put.length = 2 := by simpa using congrArg List.length hput
  have hput' : ∀ l ∈ put, '\n' ∉ l := Text.lineFeed_notMem_of_map_afterIndent hput (by decide)
  have hplain : ∀ l ∈ ["x".toList] ++ (put ++ []), '\n' ∉ l := by
    rw [List.append_nil, List.forall_mem_append]
    exact ⟨by decide, hput'⟩
  -- The document has two lines, and one more would be needed.
  have htwo : "x\n bar\n".toList = Text.written true ["x".toList, " bar".toList] := rfl
  have hcount := Text.length_eq_of_written_eq (by decide) hplain (.inl rfl) (htwo.symm.trans heq)
  rw [List.length_append, List.length_append, hlength] at hcount
  cases hcount

end Edit

end Emend
