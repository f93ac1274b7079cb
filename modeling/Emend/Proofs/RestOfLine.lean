import Emend.Proofs.UnchangedWords

/-!
# The rest of a line after a replaced place

A place may stop in the middle of a line, which goes on with other words. What is put into the place
ends with the spaces that the replacement ends with, apart from one line feed, which is left out
(`EditBlock.trailingSpaces_fitted`); moving lines to another indentation changes nothing there
(`Text.trailingSpaces_moveLines`). So the last word of the replacement stands on one line with the
words after the place just if there was no other line feed among these spaces
(`EditBlock.sharesLine_splice_iff`).
-/

namespace Emend

namespace Text

variable {s t text word gap inner outer : Text}

/-! ## Spaces at the end -/

/-- A blank text is made of the spaces at its end. -/
theorem trailingSpaces_of_isBlank (h : t.isBlank = true) : t.trailingSpaces = t := by
  rw [trailingSpaces, List.takeWhile_eq_self_iff.mpr, List.reverse_reverse]
  exact fun c hc => List.all_eq_true.mp h c (List.mem_reverse.mp hc)

/-- A blank text after another one is more spaces at its end. -/
theorem trailingSpaces_append_of_isBlank (s : Text) (h : t.isBlank = true) :
    trailingSpaces (s ++ t) = trailingSpaces s ++ t := by
  have hspaces : ∀ c ∈ t.reverse, isSpace c = true := fun c hc =>
    List.all_eq_true.mp h c (List.mem_reverse.mp hc)
  rw [trailingSpaces, List.reverse_append, List.takeWhile_append_of_pos hspaces,
    List.reverse_append, List.reverse_reverse, ← trailingSpaces]

/-- The spaces at the end of a text that is not blank are the same after any other text. -/
theorem trailingSpaces_append_of_not_isBlank (s : Text) (h : t.isBlank = false) :
    trailingSpaces (s ++ t) = trailingSpaces t := by
  have hends := endsWord_stripEnd h
  conv_lhs => rw [← stripEnd_append_trailingSpaces t, ← List.append_assoc]
  refine trailingSpaces_append ?_ fun _ => isSpace_of_mem_trailingSpaces
  rw [endsWord_append s (ne_nil_of_endsWord hends), hends]

/-- A text ends a line if the spaces at its end do. -/
theorem endsLine_trailingSpaces (t : Text) : t.trailingSpaces.endsLine = t.endsLine := by
  cases h : t.isBlank with
  | true => rw [trailingSpaces_of_isBlank h]
  | false =>
    by_cases hnil : t.trailingSpaces = []
    · rw [hnil, endsLine_of_endsWord (endsWord_of_trailingSpaces h hnil)]
      rfl
    · conv_rhs => rw [← stripEnd_append_trailingSpaces t, endsLine_append_of_ne_nil _ hnil]

/-- A text that is not blank has a last word, with nothing but spaces after it. -/
theorem exists_getLast?_words (h : t.isBlank = false) :
    ∃ front word, t = front ++ (word ++ t.trailingSpaces) ∧ t.words.getLast? = some word ∧
      word.endsWord = true := by
  obtain ⟨core, hparts, hwords, -, hends⟩ := exists_core h
  obtain ⟨front, word, rfl, hfront, hword⟩ := exists_last_word core
  have hne : word ≠ [] := by
    rintro rfl
    rw [List.append_nil, hfront] at hends
    cases hends
  refine ⟨t.leadingSpaces ++ front, word, ?_, ?_, endsWord_of_forall hne hword⟩
  · conv_lhs => rw [hparts]
    simp only [List.append_assoc]
  · rw [← hwords, words_append_of_endsWord hfront, words_eq_singleton hne hword,
      List.getLast?_concat]

/-! ## Moved lines -/

section Indented

variable (hinner : ∀ c ∈ inner, isIndent c = true) (houter : ∀ c ∈ outer, isIndent c = true)

include hinner

/-- A moved line ends with the same spaces. -/
theorem trailingSpaces_moveIndent (line : Text) :
    (moveIndent inner outer line).trailingSpaces = line.trailingSpaces := by
  rcases moveIndent_cases inner outer line with h | ⟨rest, rfl, hvisible, h⟩
  · rw [h]
  · rw [isBlank_append_of_isSpace fun c hc => isSpace_of_isIndent (hinner c hc)] at hvisible
    rw [h, trailingSpaces_append_of_not_isBlank _ hvisible,
      trailingSpaces_append_of_not_isBlank _ hvisible]

include houter

/-- Moved lines end with the same spaces. -/
theorem trailingSpaces_moveLines (t : Text) :
    (moveLines inner outer t).trailingSpaces = t.trailingSpaces := by
  induction t using pieces_induction (· == '\n') with
  | last t ht =>
    have hfeed : '\n' ∉ t := fun h => by simpa using ht '\n' h
    rw [moveLines_of_notMem hfeed, trailingSpaces_moveIndent hinner]
  | piece body c t hbody hc ih =>
    obtain rfl : c = '\n' := beq_iff_eq.mp hc
    have hfeed : '\n' ∉ body := fun h => by simpa using hbody '\n' h
    have hbodyMoved : (moveLines inner outer body).trailingSpaces = body.trailingSpaces := by
      rw [moveLines_of_notMem hfeed, trailingSpaces_moveIndent hinner]
    -- A text with the same words is blank if the text is.
    have hblank : (moveLines inner outer t).isBlank = t.isBlank := by
      rw [Bool.eq_iff_iff, ← words_eq_nil_iff, ← words_eq_nil_iff, words_moveLines hinner houter]
    rw [moveLines_append]
    cases ht : t.isBlank with
    | true =>
      rw [trailingSpaces_of_isBlank (hblank.trans ht), trailingSpaces_of_isBlank ht] at ih
      have hrest : Text.isBlank ('\n' :: t) = true := ht
      rw [ih, trailingSpaces_append_of_isBlank _ hrest, trailingSpaces_append_of_isBlank _ hrest,
        hbodyMoved]
    | false =>
      rw [List.append_cons, List.append_cons body,
        trailingSpaces_append_of_not_isBlank _ (hblank.trans ht),
        trailingSpaces_append_of_not_isBlank _ ht, ih]

end Indented

/-! ## Unified endings -/

theorem startsWord_unifyEndings (t : Text) : t.unifyEndings.startsWord = t.startsWord := by
  fun_cases unifyEndings t with
  | case1 => rfl
  | case2 r => rfl
  | case3 c r h =>
    rw [startsWord_cons, startsWord_cons]
    split
    · next hc =>
      rw [hc]
      rfl
    · rfl

/-- Line endings of any style are spaces, so that the words are the same. -/
theorem words_unifyEndings (t : Text) : t.unifyEndings.words = t.words := by
  have hspace {c : Char} (hc : isSpace c = true) (t : Text) : words (c :: t) = words t :=
    words_append_space hc [] t
  fun_induction unifyEndings t with
  | case1 => rfl
  | case2 r ih => rw [hspace rfl, hspace rfl, hspace rfl, ih]
  | case3 c r h ih =>
    split
    · next hc => rw [hc, hspace rfl, hspace rfl, ih]
    · have hparts (t : Text) : words (c :: t) = _ := words_append [c] t
      rw [hparts, hparts r, startsWord_unifyEndings, ih]

/-- The spaces at the end of a text have their endings unified. -/
theorem trailingSpaces_unifyEndings (t : Text) :
    t.unifyEndings.trailingSpaces = t.trailingSpaces.unifyEndings := by
  cases h : t.isBlank with
  | true =>
    rw [trailingSpaces_of_isBlank h, trailingSpaces_of_isBlank (t.isBlank_unifyEndings.trans h)]
  | false =>
    obtain ⟨front, word, hparts, hlast, hends⟩ := exists_getLast?_words h
    obtain ⟨hne, hword⟩ := of_mem_words (List.mem_of_getLast? hlast)
    -- No line ending stands across an edge of the last word.
    have hreturn : '\r' ∉ word := fun hmem => absurd (hword '\r' hmem) (by decide)
    have hhead : (word ++ t.trailingSpaces).head? ≠ some '\n' := by
      refine head?_ne_of_startsWord ?_
      rw [startsWord_append hne, startsWord_of_forall hne hword]
    have hspaces : ∀ c ∈ t.trailingSpaces.unifyEndings, isSpace c = true := by
      refine List.all_eq_true.mp ((isBlank_unifyEndings _).trans ?_)
      exact List.all_eq_true.mpr fun _ => isSpace_of_mem_trailingSpaces
    conv_lhs => rw [hparts]
    rw [unifyEndings_append_of_apart fun _ => hhead, unifyEndings_append hreturn,
      ← List.append_assoc]
    refine trailingSpaces_append ?_ hspaces
    rw [endsWord_append _ hne, hends]

/-! ## Words on one line -/

/-- A word stands on the line that goes on with the text, and nothing but spaces is between them. -/
def SharesLine (word text t : Text) : Prop :=
  ∃ front gap : Text, t = front ++ (word ++ (gap ++ text)) ∧ (∀ c ∈ gap, isSpace c = true) ∧
    '\n' ∉ gap

/-- A word shares the line of the text after it just if no line feed is between them. -/
theorem sharesLine_append_iff (hword : word.endsWord = true) (hgap : ∀ c ∈ gap, isSpace c = true) :
    SharesLine word text (s ++ (word ++ (gap ++ text))) ↔ '\n' ∉ gap := by
  constructor
  · rintro ⟨front, gap', heq, hgap', hfeed⟩
    simp only [← List.append_assoc] at heq
    have hgaps (s : Text) {gap : Text} (hgap : ∀ c ∈ gap, isSpace c = true) :
        trailingSpaces (s ++ word ++ gap) = gap := by
      refine trailingSpaces_append ?_ hgap
      rw [endsWord_append s (ne_nil_of_endsWord hword), hword]
    have hsame := congrArg trailingSpaces (List.append_cancel_right heq)
    rw [hgaps s hgap, hgaps front hgap'] at hsame
    rwa [hsame]
  · exact fun hfeed => ⟨s, gap, rfl, hgap, hfeed⟩

/-- Where a line goes on with words there is no line feed before them. -/
theorem lineFeed_notMem_leadingSpaces (h : isBlank ((lines t).headD []) = false) :
    '\n' ∉ t.leadingSpaces := by
  intro hmem
  obtain ⟨first, others, hspaces, hfirst⟩ := List.eq_append_cons_of_mem hmem
  have hlines : lines t = first :: lines (others ++ stripStart t) := by
    conv_lhs => rw [← leadingSpaces_append_stripStart t, hspaces]
    rw [List.append_assoc]
    exact cut_append_cons (beq_lineFeed_eq_false hfirst) rfl _
  have hblank : isBlank first = true := by
    have hspaces' : ∀ c ∈ first ++ '\n' :: others, isSpace c = true := fun c hc =>
      isSpace_of_mem_leadingSpaces (hspaces ▸ hc)
    exact List.all_eq_true.mpr (List.forall_mem_append.mp hspaces').1
  rw [hlines, List.headD_cons, hblank] at h
  cases h

end Text

/-! ## Fitted replacements -/

namespace EditBlock

variable {search replacement place : Text} {strategy : Strategy} {atLineStart : Bool}

/-- Apart from a line feed at its end that is left out, a text has a line feed just if it has one
that is not its last character. -/
theorem lineFeed_mem_trimmedEnd_iff (trail : Text) :
    '\n' ∈ trimmedEnd trail false ↔ '\n' ∈ trail.dropLast := by
  unfold trimmedEnd
  split
  · exact Iff.rfl
  · next h =>
    rcases List.eq_nil_or_concat' trail with rfl | ⟨front, c, rfl⟩
    · exact Iff.rfl
    · have hc : c ≠ '\n' := by
        rintro rfl
        exact h ⟨Text.endsLine_concat front '\n', rfl⟩
      rw [List.dropLast_concat, List.mem_append, List.mem_singleton, or_iff_left (Ne.symm hc)]

section Fitted

variable (hreplacement : replacement.isBlank = false)
  (hends : search.endsLine = replacement.endsLine)

include hreplacement hends

/-- A replacement that ends a line where the search text does keeps its words when it is trimmed,
and the spaces at its end without a line feed that the place has not. -/
theorem trailingSpaces_trimEdges (place : Text) :
    (trimEdges replacement search place).words = replacement.words ∧
      (trimEdges replacement search place).trailingSpaces =
        trimmedEnd replacement.trailingSpaces place.endsLine := by
  obtain ⟨core, hparts, hwords, hstarts, hendsWord⟩ := Text.exists_core hreplacement
  have hsearch : search.endsLine = replacement.trailingSpaces.endsLine :=
    hends.trans (Text.endsLine_trailingSpaces replacement).symm
  have htrim : trimEdges (replacement.leadingSpaces ++ (core ++ replacement.trailingSpaces)) search
      place = _ := trimEdges_core hstarts hendsWord hsearch
  rw [← hparts] at htrim
  have hlead : ∀ c ∈ (if search.head? = some '\n' ∧ place.head? ≠ some '\n' ∧
      replacement.leadingSpaces.head? = some '\n'
        then replacement.leadingSpaces.tail else replacement.leadingSpaces),
      Text.isSpace c = true := by
    split
    · exact fun c hc => Text.isSpace_of_mem_leadingSpaces (List.mem_of_mem_tail hc)
    · exact fun c hc => Text.isSpace_of_mem_leadingSpaces hc
  have htrail : ∀ c ∈ trimmedEnd replacement.trailingSpaces place.endsLine,
      Text.isSpace c = true :=
    fun c hc => Text.isSpace_of_mem_trailingSpaces (mem_of_mem_trimmedEnd hc)
  rw [htrim]
  refine ⟨?_, ?_⟩
  · rw [Text.words_append_left hlead, Text.words_append_right core htrail, hwords]
  · rw [← List.append_assoc]
    refine Text.trailingSpaces_append ?_ htrail
    rw [Text.endsWord_append _ (Text.ne_nil_of_endsWord hendsWord), hendsWord]

/-- It does so when it is fitted. -/
theorem trailingSpaces_fitted (place : Text) (strategy : Strategy) (atLineStart : Bool) :
    (fitted replacement search place strategy atLineStart).words = replacement.words ∧
      (fitted replacement search place strategy atLineStart).trailingSpaces =
        trimmedEnd replacement.trailingSpaces place.endsLine := by
  obtain ⟨hwords, hspaces⟩ := trailingSpaces_trimEdges hreplacement hends place
  rcases fitted_eq_or replacement search place strategy atLineStart with
    h | ⟨_, _, hinner, houter, h⟩
  · rw [h, hwords, hspaces]
    exact ⟨rfl, rfl⟩
  · rw [h, Text.words_moveLines hinner houter, Text.trailingSpaces_moveLines hinner houter, hwords,
      hspaces]
    exact ⟨rfl, rfl⟩

/-- Where the place stops in the middle of a line, the last word of a replacement shares the line of
the words after the place just if the spaces after it have no line feed but one at their end. -/
theorem sharesLine_splice_iff {content : Text} {c : Candidate}
    (hplace : (c.place content).endsLine = false)
    (hrest : Text.isBlank ((Text.lines (content.drop c.stop)).headD []) = false) {word : Text}
    (hword : replacement.words.getLast? = some word) :
    Text.SharesLine word (Text.stripStart (content.drop c.stop))
      (splice content search replacement c) ↔ '\n' ∉ replacement.trailingSpaces.dropLast := by
  obtain ⟨hwords, hspaces⟩ := trailingSpaces_fitted hreplacement hends (c.place content) c.strategy
    (startsLine content c.position (c.place content))
  rw [hplace] at hspaces
  rw [splice_eq]
  generalize fitted replacement search (c.place content) c.strategy
    (startsLine content c.position (c.place content)) = inserted at hwords hspaces ⊢
  have hinserted : inserted.isBlank = false := by
    by_contra hblank
    rw [Bool.not_eq_false, ← Text.words_eq_nil_iff, hwords, Text.words_eq_nil_iff,
      hreplacement] at hblank
    cases hblank
  obtain ⟨front, last, hparts, hlast, hendsWord⟩ := Text.exists_getLast?_words hinserted
  rw [hwords, hword] at hlast
  obtain rfl := Option.some.inj hlast
  -- Between the last word and the words after the place are the spaces of both sides.
  have hnext : content.take c.position ++ inserted ++ content.drop c.stop =
      (content.take c.position ++ front) ++ (word ++ ((inserted.trailingSpaces ++
        Text.leadingSpaces (content.drop c.stop)) ++ Text.stripStart (content.drop c.stop))) := by
    conv_lhs => rw [hparts, ← Text.leadingSpaces_append_stripStart (content.drop c.stop)]
    simp only [List.append_assoc]
  rw [hnext, Text.sharesLine_append_iff hendsWord ?_, List.mem_append, not_or,
    and_iff_left (Text.lineFeed_notMem_leadingSpaces hrest), hspaces, lineFeed_mem_trimmedEnd_iff]
  exact List.forall_mem_append.mpr ⟨fun _ => Text.isSpace_of_mem_trailingSpaces,
    fun _ => Text.isSpace_of_mem_leadingSpaces⟩

end Fitted

/-- **The rest of a line.** A block whose texts end with the same spaces is applied, after the
blocks before it, to a place that stops in the middle of a line, which goes on with other words. In
the new document the last word of the replacement shares the line of these words just if the spaces
that the texts end with have no line feed, or a single one that is their last character. -/
theorem applyAll_restOfLine_iff (options : Options) {content : Text} (hcontent : '\r' ∉ content)
    {blocks : List EditBlock} {s : Text} {t : Tally}
    (hrun : ((batch options .lf).run options.strict options.telemetry content (.initial [])
      blocks).value = .finished s t)
    {b : EditBlock} (hreplacement : b.replacement.isBlank = false)
    (hsame : b.search.trailingSpaces = b.replacement.trailingSpaces)
    {p : Placement Text} (hp : (attempt options s b).value = .placed p) :
    (applyAll options content (blocks ++ [b])).value.content = p.next ∧
    ∃ m word, (Match.locate options.strategies options.threshold s b.search.unifyEndings).value =
        .ok m ∧
      b.replacement.words.getLast? = some word ∧
      ((m.candidate.place s).endsLine = false →
        Text.isBlank ((Text.lines (s.drop m.candidate.stop)).headD []) = false →
          (Text.SharesLine word (Text.stripStart (s.drop m.candidate.stop)) p.next ↔
            '\n' ∉ b.replacement.trailingSpaces.unifyEndings.dropLast)) := by
  refine ⟨applyAll_concat_of_notMem options hcontent hrun hp, ?_⟩
  obtain ⟨m, hm, rfl⟩ := placement_of_attempt hp
  obtain ⟨-, word, -, hword, -⟩ := Text.exists_getLast?_words hreplacement
  refine ⟨m, word, hm, hword, fun hplace hrest => ?_⟩
  rw [← Text.words_unifyEndings] at hword
  rw [← Text.trailingSpaces_unifyEndings]
  have hends : b.search.unifyEndings.endsLine = b.replacement.unifyEndings.endsLine := by
    rw [← Text.endsLine_trailingSpaces, Text.trailingSpaces_unifyEndings, hsame,
      ← Text.trailingSpaces_unifyEndings, Text.endsLine_trailingSpaces]
  exact sharesLine_splice_iff ((Text.isBlank_unifyEndings _).trans hreplacement) hends hplace hrest
    hword

/-- The last of two words that are put in for one stands on the line of the word after the place. -/
theorem applyAll_restOfLine_words :
    '\r' ∉ "a\nx foo bar\n".toList ∧
    Text.trailingSpaces "foo \n".toList = Text.trailingSpaces "baz qux \n".toList ∧
    (applyAll .default "a\nx foo bar\n".toList ([⟨0, "a\n".toList, "c\n".toList⟩] ++
      [⟨1, "foo \n".toList, "baz qux \n".toList⟩])).value.content =
        "c\nx baz qux  bar\n".toList ∧
    Text.SharesLine "qux".toList "bar\n".toList "c\nx baz qux  bar\n".toList := by
  have hfeeds : '\r' ∉ "a\nx foo bar\n".toList := by decide
  obtain ⟨t, hrun⟩ : ∃ t, ((batch .default .lf).run false false "a\nx foo bar\n".toList
      (.initial []) [⟨0, "a\n".toList, "c\n".toList⟩]).value =
        .finished "c\nx foo bar\n".toList t := ⟨_, rfl⟩
  obtain ⟨p, hp, hnext⟩ : ∃ p, (attempt .default "c\nx foo bar\n".toList
      ⟨1, "foo \n".toList, "baz qux \n".toList⟩).value = .placed p ∧
        p.next = "c\nx baz qux  bar\n".toList := ⟨_, rfl, rfl⟩
  have hfound : (Match.locate Options.default.strategies Options.default.threshold
      "c\nx foo bar\n".toList "foo \n".toList).value =
        .ok ⟨⟨4, 3, .whitespaceNormalized, 1⟩, none⟩ := rfl
  obtain ⟨hcontent, m, word, hm, hword, hline⟩ :=
    applyAll_restOfLine_iff .default hfeeds hrun rfl rfl hp
  obtain rfl : (⟨⟨4, 3, .whitespaceNormalized, 1⟩, none⟩ : Match) = m :=
    Except.ok.inj (hfound.symm.trans hm)
  obtain rfl : "qux".toList = word := Option.some.inj hword
  rw [hnext] at hcontent hline
  exact ⟨hfeeds, rfl, hcontent, (hline (by decide) (by decide)).mpr (by decide)⟩

/-- Of two line feeds at the end of a replacement one is put into the middle of the line. -/
theorem applyAll_restOfLine_twoFeeds :
    Text.trailingSpaces "foo\n\n".toList = Text.trailingSpaces "baz\n\n".toList ∧
    (Match.locate Options.default.strategies Options.default.threshold "x foo bar\n".toList
      "foo\n\n".toList).value = .ok ⟨⟨2, 3, .whitespaceNormalized, 1⟩, none⟩ ∧
    List.drop 5 "x foo bar\n".toList = " bar\n".toList ∧
    (applyAll .default "x foo bar\n".toList
      [⟨0, "foo\n\n".toList, "baz\n\n".toList⟩]).value.content = "x baz\n bar\n".toList ∧
    ¬Text.SharesLine "baz".toList "bar\n".toList "x baz\n bar\n".toList := by
  refine ⟨rfl, rfl, rfl, rfl, ?_⟩
  have hparts : "x baz\n bar\n".toList =
      "x ".toList ++ ("baz".toList ++ ("\n ".toList ++ "bar\n".toList)) := rfl
  have hgap : ∀ c ∈ "\n ".toList, Text.isSpace c = true := List.all_eq_true.mp rfl
  rw [hparts, Text.sharesLine_append_iff rfl hgap]
  decide

end EditBlock

end Emend
