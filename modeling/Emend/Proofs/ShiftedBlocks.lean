import Emend.Proofs.LineAfter
import Emend.Proofs.LineSplice
import Emend.Proofs.Occurrences
import Emend.Proofs.WindowOrder

/-!
# Blocks at another indentation

The lines of a search text may stand in a document with more spaces and tabs before them, the same
before each line that is not blank (`Text.shiftLines`). If the search text itself stands nowhere,
then these lines are found by the second strategy, unless other lines before them are the same up to
the spaces around them (`Match.exists_locate_of_first`). The replacement swaps the indentation of
the search text for that of the place, which puts the same spaces and tabs before each of its lines,
also before deeper ones (`EditBlock.fitted_shifted`). So the edit is the one that the block makes
where nothing is shifted, with all its lines shifted (`EditBlock.applyAll_shifted`).
-/

namespace Emend

/-! ## Shifted lines -/

namespace Text

/-- A line with `p` before it, unless it is blank. -/
def shiftLine (p line : Text) : Text := if line.isBlank then line else p ++ line

/-- The lines of a text with `p` before each that is not blank. -/
def shiftLines (p t : Text) : Text := unlines ((lines t).map (shiftLine p))

variable {p inner line t : Text} {ls : List Text}

/-- A line that starts with an indentation gets `p` before it when it is moved to the indentation
that is `p` and the same once more. -/
theorem moveIndent_append (h : line.isBlank = false → inner <+: line) :
    moveIndent inner (p ++ inner) line = shiftLine p line := by
  unfold moveIndent shiftLine
  split
  · rfl
  · next hblank =>
    obtain ⟨rest, rfl⟩ := h (Bool.eq_false_iff.mpr hblank)
    rw [after_eq_some_iff.mpr rfl]
    exact List.append_assoc p inner rest

/-- Lines that start with an indentation are shifted when they are moved. -/
theorem moveLines_append_indent (h : ∀ l ∈ lines t, l.isBlank = false → inner <+: l) :
    moveLines inner (p ++ inner) t = shiftLines p t :=
  congrArg unlines (List.map_congr_left fun l hl => moveIndent_append (h l hl))

/-- To shift a line is to move it from no indentation. -/
theorem shiftLine_eq_moveIndent (p line : Text) : shiftLine p line = moveIndent [] p line := by
  have h : moveIndent [] (p ++ []) line = shiftLine p line :=
    moveIndent_append fun _ => List.nil_prefix
  rw [← h, List.append_nil]

theorem shiftLines_eq_moveLines (p t : Text) : shiftLines p t = moveLines [] p t :=
  congrArg unlines (List.map_congr_left fun l _ => shiftLine_eq_moveIndent p l)

/-- The text of shifted lines. -/
theorem shiftLines_ended (p : Text) (hls : ∀ l ∈ ls, '\n' ∉ l) :
    shiftLines p (ended ['\n'] ls) = ended ['\n'] (ls.map (shiftLine p)) := by
  have hmoved : moveLines [] p (written true ls) = written true (ls.map (moveIndent [] p)) :=
    moveLines_written true hls
  rw [← shiftLines_eq_moveLines, ← funext (shiftLine_eq_moveIndent p)] at hmoved
  exact hmoved

/-- A text that ends a line is shifted line by line. -/
theorem shiftLines_of_endsLine (p : Text) (h : t.endsLine = true) :
    shiftLines p t = ended ['\n'] (t.bodyLines.map (shiftLine p)) := by
  have hended : ended ['\n'] t.bodyLines = t := by
    conv_rhs => rw [← written_bodyLines t, h]
    rfl
  rw [← shiftLines_ended p fun _ => lineFeed_notMem_of_mem_bodyLines, hended]

/-- The first visible line of a text whose first line is visible. -/
theorem firstVisible_of_head? (hhead : ls.head? = some line) (hvisible : line.isBlank = false) :
    firstVisible ls = line := by
  obtain ⟨rest, rfl⟩ := List.head?_eq_some_iff.mp hhead
  rw [firstVisible, List.find?_cons_of_pos (by rw [hvisible, Bool.not_false]), Option.getD_some]

/-- A shifted line is as visible as it was. -/
theorem isBlank_shiftLine (p : Text) (h : line.isBlank = false) :
    (shiftLine p line).isBlank = false := by
  rw [shiftLine, if_neg (Bool.eq_false_iff.mp h), isBlank, List.all_append]
  rw [isBlank] at h
  rw [h, Bool.and_false]

section Indentation

variable (hp : ∀ c ∈ p, isIndent c = true)

include hp

/-- A shifted line is the same but for the spaces around it. -/
theorem strip_shiftLine (line : Text) : (shiftLine p line).strip = line.strip := by
  rw [shiftLine_eq_moveIndent, strip_moveIndent (List.forall_mem_nil _) hp]

/-- An indentation holds no line feeds. -/
theorem lineFeed_notMem_shiftLine (h : '\n' ∉ line) : '\n' ∉ shiftLine p line := by
  rw [shiftLine_eq_moveIndent, ← lineFeed_mem_afterIndent_iff,
    afterIndent_moveIndent (List.forall_mem_nil _) hp, lineFeed_mem_afterIndent_iff]
  exact h

/-- The lines of shifted lines are these. -/
theorem lines_shiftLines (t : Text) : lines (shiftLines p t) = (lines t).map (shiftLine p) := by
  have hfeeds : ∀ l ∈ (lines t).map (shiftLine p), '\n' ∉ l := by
    refine List.forall_mem_map.mpr fun l hl => lineFeed_notMem_shiftLine hp fun hmem => ?_
    exact absurd (forall_of_mem_cut hl '\n' hmem) (by decide)
  have hlines : lines (written false ((lines t).map (shiftLine p))) = _ :=
    lines_written hfeeds (.inr (mt List.map_eq_nil_iff.mp (cut_ne_nil _ t)))
  exact hlines

/-- An indentation holds no carriage returns. -/
theorem return_notMem_shiftLines (h : '\r' ∉ t) : '\r' ∉ shiftLines p t := by
  intro hmem
  rcases mem_of_mem_unlines hmem with heq | ⟨line, hline, hmem⟩
  · exact absurd heq (by decide)
  · obtain ⟨l, hl, rfl⟩ := List.mem_map.mp hline
    rw [shiftLine_eq_moveIndent] at hmem
    rcases mem_of_mem_moveIndent hmem with hmem | hmem
    · exact absurd (hp _ hmem) (by decide)
    · exact h (mem_of_mem_lines hl hmem)

end Indentation

end Text

/-! ## The first place -/

namespace Match

/-- A search text that stands nowhere itself, but whose lines are those of a window up to the spaces
around them, is located at the first such window. -/
theorem exists_locate_of_first {content search : Text} (threshold : Binary64)
    (hblank : search.isBlank = false) (hexact : ¬search <:+: content) {w : Window}
    (hw : w ∈ sameLines (List.map Text.strip) content search)
    (hfirst : ∀ v ∈ sameLines (List.map Text.strip) content search, w.start ≤ v.start) :
    ∃ m, (locate Strategy.all threshold content search).value = .ok m ∧
      m.candidate = w.candidate content search .lineTrimmed 1 := by
  have hnone : exact content search = [] := by
    refine List.eq_nil_iff_forall_not_mem.mpr fun c hc => hexact ?_
    obtain ⟨front, rest, hcontent, -⟩ := exists_of_mem_exact hc
    exact ⟨front, rest, (List.append_assoc _ _ _).trans hcontent.symm⟩
  have hsame : (lineTrimmed content search).Pairwise (·.position < ·.position) :=
    pairwise_of_isLineBased (rfl : Strategy.lineTrimmed.isLineBased = true) threshold content search
  obtain ⟨m, hm, hcandidate⟩ := exists_choose?_of_forall hsame
    (List.forall_mem_map.mpr fun _ _ => rfl) (List.mem_map_of_mem hw)
    (List.forall_mem_map.mpr hfirst) content .lineTrimmed
  have hexactNone : choose? content .exact (candidates .exact threshold content search) = none := by
    rw [candidates, hnone]
    rfl
  have htrimmed : choose? content .lineTrimmed
      (candidates .lineTrimmed threshold content search) = some m := hm
  refine ⟨m, ?_, hcandidate⟩
  rw [locate_eq_ok_iff, findBest, if_neg (Bool.eq_false_iff.mp hblank), Strategy.all,
    firstMatch_cons, hexactNone, Option.none_or, firstMatch_cons, htrimmed, Option.some_or]

end Match

/-! ## Shifted blocks -/

namespace EditBlock

variable {p search replacement first : Text}

/-- A search text whose first line is visible is not blank. -/
theorem isBlank_of_first (hfirst : search.lines.head? = some first)
    (hvisible : first.isBlank = false) : search.isBlank = false := by
  obtain ⟨others, hlines⟩ := List.head?_eq_some_iff.mp hfirst
  by_contra hblank
  rw [Bool.not_eq_false] at hblank
  have hmem : first ∈ search.lines := hlines ▸ List.mem_cons_self
  have hall : first.isBlank = true := List.all_eq_true.mpr fun c hc =>
    List.all_eq_true.mp hblank c (Text.mem_of_mem_lines hmem hc)
  rw [hvisible] at hall
  cases hall

/-- A replacement whose visible lines have the indentation of the search text is shifted as the
place is, if the search text starts with a visible line. -/
theorem fitted_shifted (hfirst : search.lines.head? = some first)
    (hvisible : first.isBlank = false) (hp : ∀ c ∈ p, Text.isIndent c = true)
    (hends : (Text.shiftLines p search).endsLine = true)
    (hinner : ∀ l ∈ replacement.lines, l.isBlank = false → first.indent <+: l)
    {strategy : Strategy} {atLineStart : Bool} (hmoved : isMoved strategy atLineStart = true) :
    fitted replacement search (Text.shiftLines p search) strategy atLineStart =
      Text.shiftLines p replacement := by
  have hhead : search.head? ≠ some '\n' := by
    intro hhead
    obtain ⟨t, rfl⟩ := List.head?_eq_some_iff.mp hhead
    obtain rfl : [] = first := Option.some.inj hfirst
    cases hvisible
  have htrimmed : trimEdges replacement search (Text.shiftLines p search) = replacement := by
    rw [trimEdges_of_endsLine hends, if_neg fun h => hhead h.1]
  unfold fitted
  dsimp only
  rw [htrimmed, hmoved, Bool.true_and]
  cases replacement with
  | nil => rfl
  | cons c t =>
    -- The first visible line of the place is that of the search text, shifted.
    have hsource : Text.firstVisible search.lines = first :=
      Text.firstVisible_of_head? hfirst hvisible
    have htarget : Text.firstVisible (Text.shiftLines p search).lines =
        Text.shiftLine p first := by
      refine Text.firstVisible_of_head? ?_ (Text.isBlank_shiftLine p hvisible)
      rw [Text.lines_shiftLines hp, List.head?_map, hfirst, Option.map_some]
    rw [List.isEmpty_cons, Bool.not_false, if_pos rfl, Text.moved_eq_moveLines, hsource, htarget,
      Text.shiftLine, if_neg (Bool.eq_false_iff.mp hvisible), Text.indent_append hp,
      Text.moveLines_append_indent hinner]

section Placed

variable {content pre post : Text} (hsearch : search.endsLine = true)
  (hfirst : search.lines.head? = some first) (hvisible : first.isBlank = false)
  (hp : ∀ c ∈ p, Text.isIndent c = true) (hpre : pre.IsTerminated)
  (hcontent : content = pre ++ (Text.shiftLines p search ++ post))

include hsearch hp hpre hcontent

/-- The lines of a search text, shifted, are a window of the document. -/
theorem mem_sameLines_shifted :
    ⟨pre.length, search.bodyLines.map (Text.shiftLine p)⟩ ∈
      Match.sameLines (List.map Text.strip) content search := by
  have hne : search.bodyLines.map (Text.shiftLine p) ≠ [] :=
    mt List.map_eq_nil_iff.mp search.bodyLines_ne_nil
  have hplain : ∀ l ∈ pre.wholeLines ++ search.bodyLines.map (Text.shiftLine p), '\n' ∉ l := by
    refine List.forall_mem_append.mpr ⟨fun _ => Text.lineFeed_notMem_of_mem_wholeLines, ?_⟩
    exact List.forall_mem_map.mpr fun l hl =>
      Text.lineFeed_notMem_shiftLine hp (Text.lineFeed_notMem_of_mem_bodyLines hl)
  have hlines : content.bodyLines = pre.wholeLines ++
      (search.bodyLines.map (Text.shiftLine p) ++ post.wholeLines) := by
    have hended : content = Text.ended ['\n']
        (pre.wholeLines ++ search.bodyLines.map (Text.shiftLine p)) ++ post := by
      rw [Text.ended, List.flatMap_append, List.append_assoc]
      show _ = Text.ended ['\n'] pre.wholeLines ++ (Text.ended ['\n'] _ ++ post)
      rw [hpre.ended_wholeLines, ← Text.shiftLines_of_endsLine p hsearch, hcontent]
    rw [hended, Text.bodyLines_ended_append_rest hplain (List.append_ne_nil_of_right_ne_nil _ hne),
      List.append_assoc]
  have hwindow := Match.mem_windows hlines hne
  have hstart : Text.extent pre.wholeLines = pre.length := by
    rw [← Text.length_ended, hpre.ended_wholeLines]
  rw [hstart, List.length_map] at hwindow
  refine Match.mem_sameLines_strip_iff.mpr ⟨hwindow, ?_⟩
  rw [List.map_map]
  exact List.map_congr_left fun l _ => Text.strip_shiftLine hp l

include hfirst hvisible

/-- A search text that stands in a document shifted, and nowhere itself, is replaced there by the
shifted replacement, unless its lines are met with other spaces around them before. -/
theorem exists_splice_shifted (threshold : Binary64) (hexact : ¬search <:+: content)
    (hbefore : ∀ w ∈ Match.windows search.bodyLines.length content, w.start < pre.length →
      w.lines.map Text.strip ≠ search.bodyLines.map Text.strip)
    (hinner : ∀ l ∈ replacement.lines, l.isBlank = false → first.indent <+: l) :
    ∃ m, (Match.locate Strategy.all threshold content search).value = .ok m ∧
      splice content search replacement m.candidate =
        pre ++ (Text.shiftLines p replacement ++ post) := by
  have hmem := mem_sameLines_shifted hsearch hp hpre hcontent
  obtain ⟨m, hm, hcandidate⟩ := Match.exists_locate_of_first threshold
    (isBlank_of_first hfirst hvisible) hexact hmem fun v hv => by
      obtain ⟨hwindow, hsame⟩ := Match.mem_sameLines_strip_iff.mp hv
      exact Nat.le_of_not_lt fun hlt => hbefore v hwindow hlt hsame
  refine ⟨m, hm, ?_⟩
  have hne : search.bodyLines.map (Text.shiftLine p) ≠ [] :=
    mt List.map_eq_nil_iff.mp search.bodyLines_ne_nil
  have hshifted := Text.shiftLines_of_endsLine p hsearch
  have hends : (Text.shiftLines p search).endsLine = true := by
    rw [hshifted]
    exact Text.endsLine_ended hne
  have hparts : content =
      pre ++ (Text.written true (search.bodyLines.map (Text.shiftLine p)) ++ post) := by
    rw [hcontent, hshifted]
    rfl
  have hlength : m.candidate.length = (Text.shiftLines p search).length := by
    rw [hcandidate, hshifted]
    exact Match.Window.length_candidate_of_endsLine hparts hne nofun hsearch
  obtain ⟨hfront, hplace, hrest⟩ :=
    Candidate.parts_of_eq_append hcontent (congrArg Candidate.position hcandidate) hlength
  have hmoved (atLineStart : Bool) : isMoved m.candidate.strategy atLineStart = true := by
    rw [hcandidate]
    rfl
  rw [splice_eq, hfront, hplace, hrest, fitted_shifted hfirst hvisible hp hends hinner (hmoved _),
    List.append_assoc]

end Placed

/-- **A shifted block is edited with the same shift.** The search text of a block starts with a line
that is not blank, and its lines stand in a document with `p` before each that is not blank. If it
does not stand in the document itself, and no lines before the place are the same up to the spaces
around them, then its replacement takes this place with `p` before each line that is not blank, as
long as these lines have the indentation of the search text. All other lines stay, and the document
gets its own line endings. -/
theorem applyAll_shifted (options : Options) (hstrategies : options.strategies = Strategy.all)
    {pre post : Text} (index : Int) (hends : search.endsLine = true)
    (hfirst : search.lines.head? = some first) (hvisible : first.isBlank = false)
    (hinner : ∀ l ∈ replacement.lines, l.isBlank = false → first.indent <+: l)
    (hsearch : '\r' ∉ search) (hreplacement : '\r' ∉ replacement)
    (hp : ∀ c ∈ p, Text.isIndent c = true) (hpre : pre.IsTerminated) {content : Text}
    (hcontent : content = pre ++ (Text.shiftLines p search ++ post))
    (hexact : ¬search <:+: content.unifyEndings)
    (hbefore : ∀ w ∈ Match.windows search.bodyLines.length content.unifyEndings,
      w.start < pre.unifyEndings.length →
        w.lines.map Text.strip ≠ search.bodyLines.map Text.strip) :
    (applyAll options content [⟨index, search, replacement⟩]).value.content =
        (pre.unifyEndings ++ (Text.shiftLines p replacement ++ post.unifyEndings)).writeEndings
          content.dominantEnding.text ∧
      ('\r' ∉ pre → '\r' ∉ post →
        (applyAll options content [⟨index, search, replacement⟩]).value.content =
          pre ++ (Text.shiftLines p replacement ++ post)) := by
  have hshifted := Text.return_notMem_shiftLines hp hsearch
  have hunified : content.unifyEndings =
      pre.unifyEndings ++ (Text.shiftLines p search ++ post.unifyEndings) := by
    rw [hcontent, hpre.unifyEndings_append, Text.unifyEndings_append hshifted]
  obtain ⟨m, hm, hsplice⟩ := exists_splice_shifted hends hfirst hvisible hp hpre.unifyEndings
    hunified options.threshold hexact hbefore hinner
  rw [← hstrategies] at hm
  have hplaced : (attempt options content.unifyEndings ⟨index, search, replacement⟩).value =
      .placed (placement ⟨index, search, replacement⟩ content.unifyEndings search replacement
        m) := by
    rw [attempt_value, Text.unifyEndings_of_notMem hsearch, hm,
      Text.unifyEndings_of_notMem hreplacement]
  have happlied : (applyAll options content [⟨index, search, replacement⟩]).value.content =
      (pre.unifyEndings ++ (Text.shiftLines p replacement ++ post.unifyEndings)).writeEndings
        content.dominantEnding.text := by
    rw [← hsplice]
    exact applyAll_concat options (Batch.run_nil _ _ _ _ _) hplaced
  refine ⟨happlied, fun hpreReturns hpostReturns => ?_⟩
  have hreturns : '\r' ∉ content := by
    rw [hcontent, List.mem_append, List.mem_append, not_or, not_or]
    exact ⟨hpreReturns, hshifted, hpostReturns⟩
  rw [happlied, Text.dominantEnding_of_notMem hreturns, Text.unifyEndings_of_notMem hpreReturns,
    Text.unifyEndings_of_notMem hpostReturns]
  exact Text.writeEndings_lineFeed _

/-- A block that is written with a tab stands one space and one tab further to the right, after a
line that is its first one without the tab. A deeper line of the replacement is shifted as the
others are, and an empty one stays empty. -/
theorem applyAll_shifted_tabs :
    "a:\n \t\ta:\n\n \t\t  b\nc".toList = "a:\n".toList ++
      (Text.shiftLines " \t".toList "\ta:\n\n\t  b\n".toList ++ "c".toList) ∧
    ¬"\ta:\n\n\t  b\n".toList <:+: "a:\n \t\ta:\n\n \t\t  b\nc".toList ∧
    (∀ w ∈ Match.windows 3 "a:\n \t\ta:\n\n \t\t  b\nc".toList, w.start < 3 →
      w.lines.map Text.strip ≠ ["a:".toList, [], "b".toList]) ∧
    (applyAll .default "a:\n \t\ta:\n\n \t\t  b\nc".toList
      [⟨0, "\ta:\n\n\t  b\n".toList, "\td:\n\t\tb\n\n".toList⟩]).value.content =
        "a:\n \t\td:\n \t\t\tb\n\nc".toList := by
  have hcontent : "a:\n \t\ta:\n\n \t\t  b\nc".toList = "a:\n".toList ++
      (Text.shiftLines " \t".toList "\ta:\n\n\t  b\n".toList ++ "c".toList) := rfl
  have hexact : ¬"\ta:\n\n\t  b\n".toList <:+: "a:\n \t\ta:\n\n \t\t  b\nc".toList := by decide
  have hbefore : ∀ w ∈ Match.windows 3 "a:\n \t\ta:\n\n \t\t  b\nc".toList, w.start < 3 →
      w.lines.map Text.strip ≠ ["a:".toList, [], "b".toList] := by decide
  have hinner : ∀ l ∈ Text.lines "\td:\n\t\tb\n\n".toList, l.isBlank = false →
      Text.indent "\ta:".toList <+: l := by decide
  have hp : ∀ c ∈ " \t".toList, Text.isIndent c = true := List.all_eq_true.mp rfl
  have hpre : Text.IsTerminated "a:\n".toList := by decide
  obtain ⟨-, hsame⟩ := applyAll_shifted .default rfl 0 rfl rfl rfl hinner (by decide) (by decide)
    hp hpre hcontent hexact hbefore
  exact ⟨hcontent, hexact, hbefore, hsame (by decide) (by decide)⟩

/-- Line breaks after the place are not kept as they are: all of them are written in the style that
the document uses most. -/
theorem applyAll_shifted_mixedEndings :
    "b\n  x\n  y\na\r\n".toList =
      "b\n".toList ++ (Text.shiftLines "  ".toList "x\ny\n".toList ++ "a\r\n".toList) ∧
    ¬"x\ny\n".toList <:+: "b\n  x\n  y\na\r\n".toList ∧
    (∀ w ∈ Match.windows 2 "b\n  x\n  y\na\r\n".toList, w.start < 2 →
      w.lines.map Text.strip ≠ ["x".toList, "y".toList]) ∧
    (applyAll .default "b\n  x\n  y\na\r\n".toList
      [⟨0, "x\ny\n".toList, "z\n".toList⟩]).value.content = "b\n  z\na\n".toList ∧
    "b\n  z\na\n".toList ≠
      "b\n".toList ++ (Text.shiftLines "  ".toList "z\n".toList ++ "a\r\n".toList) := by
  refine ⟨rfl, by decide, by decide, rfl, by decide⟩

end EditBlock

end Emend
