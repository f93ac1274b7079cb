import Emend.Apply.Blocks
import Emend.Proofs.Words

/-!
# Words of a fitted replacement

A replacement that is the search text itself keeps its words when it is fitted to a place
(`words_fitted`): line breaks at its edges hold none, and a line that is moved changes in nothing
but its indentation. It ends in a word if nothing but one line feed follows the last word of the
search text, which is left out where the place has none (`endsWord_fitted`). How it starts is up to
the search text where it is not moved (`startsWord_fitted`), and it starts with a space where a line
feed stands before its first word and before the place (`startsWord_fitted_of_lineFeed`).
-/

namespace Emend

/-! ## Moved lines -/

namespace Text

/-- The lines of a text moved from one indentation to another. -/
def moveLines (inner outer t : Text) : Text := unlines ((lines t).map (moveIndent inner outer))

variable {inner outer s t : Text}

theorem moveLines_of_notMem (h : '\n' ∉ t) :
    moveLines inner outer t = moveIndent inner outer t := by
  rw [moveLines, lines, cut_eq_singleton (beq_lineFeed_eq_false h)]
  rfl

/-- What stands before a line feed and what stands after it are moved each for itself. -/
theorem moveLines_append (s t : Text) :
    moveLines inner outer (s ++ '\n' :: t) =
      moveLines inner outer s ++ '\n' :: moveLines inner outer t := by
  have hne (u : Text) : (lines u).map (moveIndent inner outer) ≠ [] :=
    mt List.map_eq_nil_iff.mp (cut_ne_nil _ u)
  have hlines : lines (s ++ '\n' :: t) = lines s ++ lines t := cut_append_separator rfl s t
  rw [moveLines, hlines, List.map_append, unlines, join_append ['\n'] _ (hne t),
    ← join_append_sep ['\n'] (hne s), List.append_assoc]
  rfl

/-- A moved replacement is its moved lines. -/
theorem moved_eq_moveLines (t source target : Text) :
    EditBlock.moved t source target = moveLines (indent (firstVisible source.lines))
      (indent (firstVisible target.lines)) t := by
  unfold EditBlock.moved reindent moveLines bodyLines
  dsimp only
  by_cases h : t.endsLine = true
  · -- After the last line feed there is an empty line, which is moved nowhere.
    obtain ⟨s, rfl⟩ := exists_of_endsLine h
    have hlines : lines (s ++ ['\n']) = lines s ++ [[]] := cut_append_separator rfl s []
    have hne (f : Text → Text) : (lines s).map f ≠ [] :=
      mt List.map_eq_nil_iff.mp (cut_ne_nil _ s)
    rw [if_pos h, if_pos h, hlines, List.dropLast_concat, List.map_append, unlines,
      join_append_sep ['\n'] (hne _), unlines, List.map_singleton, join_concat,
      moveIndent_of_isBlank rfl, List.append_nil]
  · rw [if_neg h, if_neg h]

section Indented

variable (hinner : ∀ c ∈ inner, isIndent c = true) (houter : ∀ c ∈ outer, isIndent c = true)

include hinner houter

/-- Moved lines have the same words. -/
theorem words_moveLines (t : Text) : words (moveLines inner outer t) = words t := by
  have hline (l : Text) : words (moveIndent inner outer l) = words l := by
    rw [← words_strip, strip_moveIndent hinner houter, words_strip]
  conv_rhs => rw [← unlines_lines t, words_unlines]
  rw [moveLines, words_unlines, List.flatMap_map]
  simp only [hline]

omit houter in
/-- A moved line ends in a word if it did. -/
theorem endsWord_moveIndent (l : Text) : (moveIndent inner outer l).endsWord = l.endsWord := by
  rcases moveIndent_cases inner outer l with h | ⟨rest, rfl, hvisible, h⟩
  · rw [h]
  · -- Something is left after the indentation, as the line is not blank.
    rw [isBlank_append_of_isSpace fun c hc => isSpace_of_isIndent (hinner c hc)] at hvisible
    have hne : rest ≠ [] := by
      rintro rfl
      cases hvisible
    rw [h, endsWord_append _ hne, endsWord_append _ hne]

omit houter in
/-- Moved lines end in a word if the last of them did. -/
theorem endsWord_moveLines (t : Text) : (moveLines inner outer t).endsWord = t.endsWord := by
  induction t using pieces_induction (· == '\n') with
  | last t ht =>
    have hfeed : '\n' ∉ t := fun h => by simpa using ht '\n' h
    rw [moveLines_of_notMem hfeed, endsWord_moveIndent hinner]
  | piece body c t _ hc ih =>
    obtain rfl : c = '\n' := beq_iff_eq.mp hc
    rw [moveLines_append, endsWord_append_space (by decide), endsWord_append_space (by decide), ih]

end Indented

/-- A line feed before the first word of a text stays there when its lines are moved. -/
theorem startsWord_moveLines (h : '\n' ∈ leadingSpaces t) :
    (moveLines inner outer t).startsWord = false := by
  -- The line before the first line feed is blank, so that it is not moved.
  obtain ⟨first, others, hspaces, hfirst⟩ := List.eq_append_cons_of_mem h
  have hall : ∀ c ∈ first ++ '\n' :: others, isSpace c = true := fun c hc =>
    isSpace_of_mem_leadingSpaces (hspaces ▸ hc)
  have hblank : ∀ c ∈ first, isSpace c = true := (List.forall_mem_append.mp hall).1
  have ht : t = first ++ '\n' :: (others ++ stripStart t) := by
    conv_lhs => rw [← leadingSpaces_append_stripStart t, hspaces]
    rw [List.append_assoc, List.cons_append]
  rw [ht, moveLines_append, moveLines_of_notMem hfirst,
    moveIndent_of_isBlank (List.all_eq_true.mpr hblank)]
  cases first with
  | nil => rfl
  | cons c first =>
    rw [List.cons_append, startsWord_cons, hblank c List.mem_cons_self, Bool.not_true]

end Text

/-! ## Trimmed edges -/

namespace EditBlock

variable {lead core trail place search : Text} {strategy : Strategy} {atLineStart : Bool}

/-- The spaces after the words of a search text without the line feed that its place has not. -/
def trimmedEnd (trail : Text) (placeEndsLine : Bool) : Text :=
  if trail.endsLine = true ∧ placeEndsLine = false then trail.dropLast else trail

theorem mem_of_mem_trimmedEnd {c : Char} {placeEndsLine : Bool}
    (h : c ∈ trimmedEnd trail placeEndsLine) : c ∈ trail := by
  unfold trimmedEnd at h
  split at h
  · exact (List.dropLast_sublist trail).subset h
  · exact h

/-- Nothing is left of no spaces, and of a line feed that is left out. -/
theorem trimmedEnd_eq_nil_iff {placeEndsLine : Bool} : trimmedEnd trail placeEndsLine = [] ↔
    trail = [] ∨ trail = ['\n'] ∧ placeEndsLine = false := by
  unfold trimmedEnd
  split
  · next h =>
    obtain ⟨front, rfl⟩ := Text.exists_of_endsLine h.1
    rw [List.dropLast_concat]
    constructor
    · rintro rfl
      exact .inr ⟨rfl, h.2⟩
    · rintro (hnil | ⟨hfeed, -⟩)
      · exact absurd hnil (List.append_ne_nil_of_right_ne_nil _ (List.cons_ne_nil _ _))
      · exact List.append_cancel_right hfeed
  · next h =>
    refine ⟨.inl, fun hor => hor.resolve_right fun hfeed => h ⟨?_, hfeed.2⟩⟩
    rw [hfeed.1]
    rfl

section Trimmed

variable (hstarts : core.startsWord = true) (hends : core.endsWord = true)

include hstarts

/-- Words are told from what stands before them by their first character. -/
theorem head?_eq_lineFeed_iff (t : Text) :
    (lead ++ (core ++ t)).head? = some '\n' ↔ lead.head? = some '\n' := by
  cases lead with
  | cons c lead => rfl
  | nil =>
    refine iff_of_false (Text.head?_ne_of_startsWord ?_) (by decide)
    rw [List.nil_append, Text.startsWord_append (Text.ne_nil_of_startsWord hstarts), hstarts]

include hends

/-- Whether a text ends a line is up to what follows its words. -/
theorem endsLine_core_append (lead trail : Text) :
    (lead ++ (core ++ trail)).endsLine = trail.endsLine := by
  by_cases htrail : trail = []
  · rcases List.eq_nil_or_concat' core with rfl | ⟨core, c, rfl⟩
    · cases hends
    · rw [Text.endsWord_concat] at hends
      rw [htrail, List.append_nil, ← List.append_assoc, Text.endsLine_concat]
      refine beq_eq_false_iff_ne.mpr ?_
      rintro rfl
      cases hends
  · rw [← List.append_assoc, Text.endsLine_append_of_ne_nil _ htrail]

/-- A replacement that ends a line where the search text does loses line feeds only in the spaces
around its words. -/
theorem trimEdges_core (hsearch : search.endsLine = trail.endsLine) :
    trimEdges (lead ++ (core ++ trail)) search place =
      (if search.head? = some '\n' ∧ place.head? ≠ some '\n' ∧ lead.head? = some '\n'
        then lead.tail else lead) ++ (core ++ trimmedEnd trail place.endsLine) := by
  have hlast : (if (trail.endsLine && !place.endsLine && trail.endsLine) = true
        then (lead ++ (core ++ trail)).dropLast else lead ++ (core ++ trail)) =
      lead ++ (core ++ trimmedEnd trail place.endsLine) := by
    unfold trimmedEnd
    by_cases h : trail.endsLine = true ∧ place.endsLine = false
    · obtain ⟨front, rfl⟩ := Text.exists_of_endsLine h.1
      rw [if_pos h, if_pos (by rw [h.1, h.2]; rfl), List.dropLast_concat, ← List.append_assoc,
        ← List.append_assoc, List.dropLast_concat, List.append_assoc]
    · rw [if_neg h, if_neg fun hcond => h (by simpa [and_comm] using hcond)]
  unfold trimEdges
  dsimp only
  rw [hsearch, endsLine_core_append hstarts hends, hlast]
  by_cases h : search.head? = some '\n' ∧ place.head? ≠ some '\n' ∧ lead.head? = some '\n'
  · obtain ⟨t, rfl⟩ := List.head?_eq_some_iff.mp h.2.2
    rw [if_pos h, if_pos (by simp [h.1, h.2.1])]
    rfl
  · rw [if_neg h, if_neg fun hcond => h ?_]
    simp only [Bool.and_eq_true, beq_iff_eq, bne_iff_ne] at hcond
    exact ⟨hcond.1.1, hcond.1.2, (head?_eq_lineFeed_iff hstarts _).mp hcond.2⟩

/-- A search text in place of itself loses line feeds only in the spaces around its words. -/
theorem trimEdges_self :
    trimEdges (lead ++ (core ++ trail)) (lead ++ (core ++ trail)) place =
      (if lead.head? = some '\n' ∧ place.head? ≠ some '\n' then lead.tail else lead) ++
        (core ++ trimmedEnd trail place.endsLine) := by
  rw [trimEdges_core hstarts hends (endsLine_core_append hstarts hends lead trail)]
  simp only [head?_eq_lineFeed_iff hstarts, and_comm, and_self_left]

end Trimmed

/-! ## Fitted replacements -/

variable (hsearch : search.isBlank = false)

include hsearch

/-- The words of a search text in place of itself stay, with the spaces around them but for line
feeds at the edges. -/
theorem exists_core_trimEdges (place : Text) :
    ∃ core, search = search.leadingSpaces ++ (core ++ search.trailingSpaces) ∧
      core.words = search.words ∧ core.startsWord = true ∧ core.endsWord = true ∧
      trimEdges search search place =
        (if search.leadingSpaces.head? = some '\n' ∧ place.head? ≠ some '\n'
          then search.leadingSpaces.tail else search.leadingSpaces) ++
        (core ++ trimmedEnd search.trailingSpaces place.endsLine) := by
  obtain ⟨core, hparts, hwords, hstarts, hends⟩ := Text.exists_core hsearch
  have htrim : trimEdges (search.leadingSpaces ++ (core ++ search.trailingSpaces))
      (search.leadingSpaces ++ (core ++ search.trailingSpaces)) place = _ :=
    trimEdges_self hstarts hends
  rw [← hparts] at htrim
  exact ⟨core, hparts, hwords, hstarts, hends, htrim⟩

omit hsearch in
/-- A fitted replacement is trimmed at its edges, and its lines may be moved. -/
theorem fitted_eq_or (replacement search place : Text) (strategy : Strategy) (atLineStart : Bool) :
    fitted replacement search place strategy atLineStart = trimEdges replacement search place ∨
      ∃ inner outer, (∀ c ∈ inner, Text.isIndent c = true) ∧
        (∀ c ∈ outer, Text.isIndent c = true) ∧
        fitted replacement search place strategy atLineStart =
          Text.moveLines inner outer (trimEdges replacement search place) := by
  unfold fitted
  dsimp only
  split
  · exact .inr ⟨_, _, fun _ => Text.isIndent_of_mem_indent, fun _ => Text.isIndent_of_mem_indent,
      Text.moved_eq_moveLines _ _ _⟩
  · exact .inl rfl

/-- A search text in place of itself keeps its words when it is fitted. -/
theorem words_fitted (place : Text) (strategy : Strategy) (atLineStart : Bool) :
    (fitted search search place strategy atLineStart).words = search.words := by
  obtain ⟨core, -, hwords, -, -, htrim⟩ := exists_core_trimEdges hsearch place
  have htrimmed : (trimEdges search search place).words = search.words := by
    rw [htrim, Text.words_append_left ?_, Text.words_append_right core ?_, hwords]
    · exact fun c hc => Text.isSpace_of_mem_trailingSpaces (mem_of_mem_trimmedEnd hc)
    · split
      · exact fun c hc => Text.isSpace_of_mem_leadingSpaces (List.mem_of_mem_tail hc)
      · exact fun c hc => Text.isSpace_of_mem_leadingSpaces hc
  rcases fitted_eq_or search search place strategy atLineStart with h | ⟨_, _, hinner, houter, h⟩
  · rw [h, htrimmed]
  · rw [h, Text.words_moveLines hinner houter, htrimmed]

/-- It ends in a word if nothing follows the last word, or one line feed that the place has not. -/
theorem endsWord_fitted (place : Text) (strategy : Strategy) (atLineStart : Bool) :
    (fitted search search place strategy atLineStart).endsWord = true ↔
      search.trailingSpaces = [] ∨ search.trailingSpaces = ['\n'] ∧ place.endsLine = false := by
  obtain ⟨core, -, -, -, hends, htrim⟩ := exists_core_trimEdges hsearch place
  have hcore := Text.ne_nil_of_endsWord hends
  have htrimmed : (trimEdges search search place).endsWord = true ↔
      search.trailingSpaces = [] ∨
        search.trailingSpaces = ['\n'] ∧ place.endsLine = false := by
    have hspaces : ∀ c ∈ trimmedEnd search.trailingSpaces place.endsLine, Text.isSpace c = true :=
      fun c hc => Text.isSpace_of_mem_trailingSpaces (mem_of_mem_trimmedEnd hc)
    rw [htrim, ← trimmedEnd_eq_nil_iff,
      Text.endsWord_append _ (List.append_ne_nil_of_left_ne_nil hcore _)]
    by_cases hnil : trimmedEnd search.trailingSpaces place.endsLine = []
    · rw [hnil, List.append_nil]
      exact iff_of_true hends rfl
    · rw [Text.endsWord_append _ hnil, Text.endsWord_eq_false hspaces]
      exact iff_of_false Bool.false_ne_true hnil
  rcases fitted_eq_or search search place strategy atLineStart with h | ⟨_, _, hinner, houter, h⟩
  · rw [h, htrimmed]
  · rw [h, Text.endsWord_moveLines hinner, htrimmed]

/-- It starts as the search text does if its lines are not moved and no line feed is left out. -/
theorem startsWord_fitted {place : Text} (hmoved : isMoved strategy atLineStart = false)
    (hhead : search.head? ≠ some '\n') :
    (fitted search search place strategy atLineStart).startsWord = search.startsWord := by
  obtain ⟨core, hparts, -, hstarts, -, htrim⟩ := exists_core_trimEdges hsearch place
  have hfitted : fitted search search place strategy atLineStart =
      trimEdges search search place := by
    unfold fitted
    dsimp only
    rw [hmoved, Bool.false_and]
    rfl
  have hlead : search.leadingSpaces.head? ≠ some '\n' := fun h =>
    hhead (hparts ▸ (head?_eq_lineFeed_iff hstarts _).mpr h)
  have hne : search.leadingSpaces ++ core ≠ [] :=
    List.append_ne_nil_of_right_ne_nil _ (Text.ne_nil_of_startsWord hstarts)
  rw [hfitted, htrim, if_neg fun h => hlead h.1]
  conv_rhs => rw [hparts]
  rw [← List.append_assoc, ← List.append_assoc, Text.startsWord_append hne,
    Text.startsWord_append hne]

/-- It starts with a space if there is a line feed before its first word and the place starts with
one. -/
theorem startsWord_fitted_of_lineFeed {place : Text} (hplace : place.head? = some '\n')
    (hfeed : '\n' ∈ search.leadingSpaces) (strategy : Strategy) (atLineStart : Bool) :
    (fitted search search place strategy atLineStart).startsWord = false := by
  obtain ⟨core, -, -, hstarts, -, htrim⟩ := exists_core_trimEdges hsearch place
  rw [if_neg fun h => h.2 hplace] at htrim
  have hspaces : (trimEdges search search place).leadingSpaces = search.leadingSpaces := by
    rw [htrim]
    refine Text.leadingSpaces_append (fun _ => Text.isSpace_of_mem_leadingSpaces) ?_
    rw [Text.startsWord_append (Text.ne_nil_of_startsWord hstarts), hstarts]
  rcases fitted_eq_or search search place strategy atLineStart with h | ⟨_, _, -, -, h⟩
  · rw [h, htrim, Text.startsWord_append (List.ne_nil_of_mem hfeed),
      Text.startsWord_eq_false fun _ => Text.isSpace_of_mem_leadingSpaces]
  · rw [h, Text.startsWord_moveLines (hspaces ▸ hfeed)]

end EditBlock

end Emend
