import Emend.Proofs.CoveredWords

/-!
# Matches of words and occurrences

An occurrence of the words of a search text (`Occurrence`) is a place of a document that is made of
them, with spaces between each two, and that stands at the start of a line up to spaces and tabs if
the search text has a line feed before its first word. The document is read from left to right, and
the next match is read after the one before it (`pairwise_stretches`). So a match may take what
another one would be read from, but then it covers the place where that one starts
(`exists_mem_stretches_of_read`). Since no word starts or ends within spaces
(`Text.length_le_of_startsWord`, `Text.length_le_of_endsWord`), this is enough to find the first
occurrence (`whitespaceNormalized_occurrences`).
-/

namespace Emend

namespace Text

variable {s t u front spaces : Text} {ws : List Text}

/-! ## No word starts or ends within spaces -/

/-- A word that does not start before spaces starts after them. -/
theorem length_le_of_startsWord (h : s ++ (spaces ++ t) = front ++ u)
    (hspaces : ∀ c ∈ spaces, isSpace c = true) (hu : u.startsWord = true)
    (hle : s.length ≤ front.length) : s.length + spaces.length ≤ front.length := by
  obtain ⟨gap, rfl, hgap⟩ := exists_gap h hle
  rcases List.append_eq_append_iff.mp hgap with ⟨more, rfl, -⟩ | ⟨more, rfl, rfl⟩
  · simp only [List.length_append]
    omega
  · obtain rfl : more = [] := by
      by_contra hmore
      rw [startsWord_append hmore, startsWord_eq_false fun c hc =>
        hspaces c (List.mem_append_right gap hc)] at hu
      cases hu
    simp only [List.length_append, List.length_nil]
    omega

/-- A word that does not end after spaces ends before them. -/
theorem length_le_of_endsWord (h : s ++ t = front ++ (spaces ++ u))
    (hspaces : ∀ c ∈ spaces, isSpace c = true) (hs : s.endsWord = true)
    (hle : s.length ≤ front.length + spaces.length) : s.length ≤ front.length := by
  by_contra hlt
  obtain ⟨gap, rfl, hgap⟩ := exists_gap h.symm (Nat.le_of_not_le hlt)
  rw [List.length_append] at hle hlt
  obtain ⟨more, rfl, -⟩ := exists_gap hgap.symm (by omega)
  -- What the text has of the spaces holds no word.
  have hne : gap ≠ [] := List.length_pos_iff.mp (by omega)
  rw [endsWord_append _ hne, endsWord_eq_false fun c hc =>
    hspaces c (List.mem_append_left more hc)] at hs
  cases hs

/-- Of the same words, read from two places on, those from the earlier place stop earlier. -/
theorem Spaced.length_le {s' t' u' : Text}
    (hws : ∀ w ∈ ws, w ≠ [] ∧ ∀ c ∈ w, isSpace c = false) (ht : Spaced ws t) (ht' : Spaced ws t')
    (h : s ++ (t ++ u) = s' ++ (t' ++ u')) (hle : s.length ≤ s'.length) :
    s.length + t.length ≤ s'.length + t'.length := by
  induction ht generalizing s s' t' with
  | single w =>
    cases ht' with
    | single => omega
    | cons _ _ _ hnone => cases hnone
  | @cons w spaces t ws _ hspaces hrest ih =>
    cases ht' with
    | single => cases hrest
    | @cons _ spaces' t' _ _ _ hrest' =>
      obtain ⟨-, hws⟩ := List.forall_mem_cons.mp hws
      have hparts : (s ++ w) ++ (spaces ++ (t ++ u)) = (s' ++ (w ++ spaces')) ++ (t' ++ u') := by
        simpa only [List.append_assoc] using h
      -- The next word does not start earlier either, as it starts after the spaces.
      have hnext := length_le_of_startsWord hparts hspaces (hrest'.startsWord_append hws u') (by
        simp only [List.length_append]
        omega)
      rw [← List.append_assoc] at hparts
      rw [← List.length_append] at hnext
      have hlater := ih hws hrest' hparts hnext
      simp only [List.length_append] at hlater ⊢
      omega

/-- There are some words if a text is made of them. -/
theorem Spaced.ne_nil (h : Spaced ws t) : ws ≠ [] := by
  cases h <;> exact List.cons_ne_nil _ _

end Text

namespace Match

variable {content search : Text} {c d : Candidate}

/-! ## Stretches -/

section

variable {read : Bool → Text → Option Text} {start skip i : Nat} {t tail : Text}

/-- A stretch starts after the characters that belong to the one before. -/
theorem le_of_mem_stretches {stretch : Nat × Nat} (h : stretch ∈ stretches read start skip t) :
    start + skip ≤ stretch.1 := by
  induction t generalizing start skip with
  | nil => cases h
  | cons c t ih =>
    cases skip with
    | succ skip =>
      have hle := ih h
      omega
    | zero =>
      rw [stretches] at h
      split at h
      · next rest hread =>
        rcases List.mem_cons.mp h with rfl | h
        · exact Nat.le_refl start
        · have hle := ih h
          omega
      · have hle := ih h
        omega

/-- Each stretch starts after the one before stops. -/
theorem pairwise_stretches (read : Bool → Text → Option Text) (start skip : Nat) (t : Text) :
    (stretches read start skip t).Pairwise fun a b => a.1 < b.1 ∧ a.1 + a.2 ≤ b.1 := by
  induction t generalizing start skip with
  | nil => exact .nil
  | cons c t ih =>
    cases skip with
    | succ skip => exact ih (start + 1) skip
    | zero =>
      rw [stretches]
      split
      · next rest hread =>
        refine .cons (fun b hb => ?_) (ih _ _)
        have hle := le_of_mem_stretches hb
        show start < b.1 ∧ start + ((c :: t).length - rest.length) ≤ b.1
        omega
      · exact ih (start + 1) 0

/-- A place from which on something is read is covered by a stretch. It may have been read from
another place, before this one. -/
theorem exists_mem_stretches_of_read (hskip : skip ≤ i)
    (hread : read (start + i == 0) (t.drop i) = some tail)
    (hlength : tail.length < (t.drop i).length) :
    ∃ stretch ∈ stretches read start skip t,
      stretch.1 ≤ start + i ∧ start + i < stretch.1 + stretch.2 := by
  induction t generalizing start skip i with
  | nil =>
    rw [List.drop_nil] at hlength
    cases hlength
  | cons c t ih =>
    -- A later place is found in the rest of the text.
    have hlater {i' skip' : Nat} (hi : i = i' + 1) (hle : skip' ≤ i') :
        ∃ stretch ∈ stretches read (start + 1) skip' t,
          stretch.1 ≤ start + i ∧ start + i < stretch.1 + stretch.2 := by
      rw [hi, List.drop_succ_cons] at hlength
      rw [hi, List.drop_succ_cons, Nat.add_comm i', ← Nat.add_assoc] at hread
      rw [hi, Nat.add_comm i', ← Nat.add_assoc]
      exact ih hle hread hlength
    cases skip with
    | succ skip =>
      obtain ⟨i', hi⟩ : ∃ i', i = i' + 1 := ⟨i - 1, by omega⟩
      exact hlater hi (by omega)
    | zero =>
      rw [stretches]
      split
      · next rest hfirst =>
        by_cases hcovered : i < (c :: t).length - rest.length
        · refine ⟨_, List.mem_cons_self, ?_⟩
          show start ≤ start + i ∧ start + i < start + ((c :: t).length - rest.length)
          omega
        · cases i with
          | zero =>
            -- What is read at the first place is not empty.
            rw [Nat.add_zero, List.drop_zero, hfirst] at hread
            cases hread
            rw [List.drop_zero] at hlength
            omega
          | succ i =>
            have hle : (c :: t).length - rest.length - 1 ≤ i := by omega
            obtain ⟨stretch, hmem, hcovers⟩ := hlater rfl hle
            exact ⟨stretch, List.mem_cons_of_mem _ hmem, hcovers⟩
      · next hfirst =>
        cases i with
        | zero =>
          rw [Nat.add_zero, List.drop_zero, hfirst] at hread
          cases hread
        | succ i => exact hlater rfl (Nat.zero_le i)

end

/-! ## Occurrences -/

/-- The words of a search text in a document: the place has these words with spaces between each
two, and it stands at the start of a line up to spaces and tabs if there is a line feed before the
first word of the search text. -/
structure Occurrence (content search : Text) where
  /-- What stands before the words. -/
  front : Text
  /-- The words, with spaces between each two. -/
  place : Text
  /-- What stands after the words. -/
  rest : Text
  /-- These are the parts of the document. -/
  content_eq : content = front ++ (place ++ rest)
  /-- The words are those of the search text. -/
  spaced : Text.Spaced search.words place
  /-- They stand at the start of a line if a line feed asks for it. -/
  lead : '\n' ∈ search.leadingSpaces → ∃ before blanks, front = before ++ blanks ∧
    (∀ c ∈ blanks, Text.isIndent c = true) ∧ before.IsTerminated

namespace Occurrence

variable (o : Occurrence content search)

/-- Where the first word starts. -/
def start : Nat := o.front.length

/-- Where the last word stops. -/
def stop : Nat := o.front.length + o.place.length

/-- A candidate covers an occurrence, and of what follows it no more than the rest of its line, with
the line feed only if there is one after the last word of the search text. -/
structure IsCoveredBy (c : Candidate) : Prop where
  /-- It does not start after the first word. -/
  position_le : c.position ≤ o.start
  /-- It stops after the last word, or at the end of its line. -/
  stop_eq : ∃ taken rest, o.rest = taken ++ rest ∧ c.stop = o.stop + taken.length ∧
    Text.LineRest ('\n' ∈ search.trailingSpaces) taken rest

/-- A candidate is read as an occurrence with an edge before it and one after it. -/
structure IsReadAs (c : Candidate) : Prop where
  /-- It starts with the edge. -/
  before : ∃ front spaces, o.front = front ++ spaces ∧ c.position = front.length ∧
    Edge.Before (c.position == 0) (Edge.ofSpaces search.leadingSpaces) spaces
  /-- It stops where the other edge does. -/
  stop_add : c.stop + (afterTrail (Edge.ofSpaces search.trailingSpaces) o.rest).length =
    content.length

/-- What stands at an occurrence starts with a word. -/
theorem startsWord : (o.place ++ o.rest).startsWord = true :=
  o.spaced.startsWord_append (fun _ hw => Text.of_mem_words hw) o.rest

/-- What stands up to the end of an occurrence ends in a word. -/
theorem endsWord : (o.front ++ o.place).endsWord = true := by
  have hends := o.spaced.endsWord fun _ hw => Text.of_mem_words hw
  rw [Text.endsWord_append _ (Text.ne_nil_of_endsWord hends), hends]

/-- An occurrence is not empty. -/
theorem start_lt_stop : o.start < o.stop := by
  have hne := Text.ne_nil_of_endsWord (o.spaced.endsWord fun _ hw => Text.of_mem_words hw)
  have hpos := List.length_pos_iff.mpr hne
  rw [start, stop]
  omega

variable {o}

/-- Of two occurrences the one that starts earlier stops earlier. -/
theorem stop_mono {o' : Occurrence content search} (h : o.start ≤ o'.start) : o.stop ≤ o'.stop :=
  Text.Spaced.length_le (fun _ hw => Text.of_mem_words hw) o.spaced o'.spaced
    (o.content_eq.symm.trans o'.content_eq) h

/-- An occurrence that a candidate is read as is covered by it. -/
theorem IsReadAs.isCoveredBy (h : o.IsReadAs c) : o.IsCoveredBy c := by
  obtain ⟨⟨front, spaces, hfront, hposition, -⟩, hstop⟩ := h
  obtain ⟨taken, hrest, hline⟩ := exists_lineRest (Edge.ofSpaces search.trailingSpaces) o.rest
  constructor
  · rw [start, hfront, hposition, List.length_append]
    exact Nat.le_add_right _ _
  · rw [Edge.ofSpaces_eq_line_iff] at hline
    refine ⟨taken, _, hrest, ?_, hline⟩
    have hcontent := congrArg List.length o.content_eq
    have hlength := congrArg List.length hrest
    simp only [List.length_append] at hcontent hlength
    rw [stop]
    omega

/-- A covered occurrence stops before its candidate does. -/
theorem IsCoveredBy.stop_le (h : o.IsCoveredBy c) : o.stop ≤ c.stop := by
  obtain ⟨-, taken, rest, -, hstop, -⟩ := h
  omega

/-- An edge can be read before every occurrence, which is not empty only if it has a line feed. -/
theorem exists_before (o : Occurrence content search) :
    ∃ front spaces, o.front = front ++ spaces ∧
      Edge.Before (front.length == 0) (Edge.ofSpaces search.leadingSpaces) spaces ∧
      (Edge.ofSpaces search.leadingSpaces ≠ .line → spaces = []) := by
  cases hedge : Edge.ofSpaces search.leadingSpaces with
  | bare => exact ⟨o.front, [], (List.append_nil _).symm, .bare, fun _ => rfl⟩
  | inline =>
    exact ⟨o.front, [], (List.append_nil _).symm, .inline (List.forall_mem_nil _), fun _ => rfl⟩
  | line =>
    obtain ⟨before, blanks, hfront, hblanks, hbefore⟩ := o.lead (Edge.ofSpaces_eq_line_iff.mp hedge)
    rcases hbefore with rfl | hends
    · exact ⟨[], blanks, hfront, .start rfl hblanks, fun h => absurd rfl h⟩
    · obtain ⟨front, rfl⟩ := Text.exists_of_endsLine hends
      refine ⟨front, '\n' :: blanks, ?_, .line hblanks, fun h => absurd rfl h⟩
      rw [hfront, List.append_assoc, List.singleton_append]

end Occurrence

/-! ## Candidates -/

/-- Each match of words starts after the one before stops. -/
theorem pairwise_whitespaceNormalized (content search : Text) :
    (whitespaceNormalized content search).Pairwise fun c d =>
      c.position < d.position ∧ c.stop ≤ d.position := by
  by_cases hwords : search.words = []
  · refine List.Pairwise.imp_of_mem (fun hmem _ _ => absurd hwords (words_ne_nil_of_mem hmem))
      (List.pairwise_of_forall fun _ _ => trivial)
  · rw [whitespaceNormalized_eq content hwords, List.pairwise_map]
    exact pairwise_stretches _ _ _ _

/-- A match of words is read as an occurrence. -/
theorem exists_isReadAs (h : c ∈ whitespaceNormalized content search) :
    ∃ o : Occurrence content search, o.IsReadAs c := by
  obtain ⟨front, t, tail, hcontent, hposition, hlead, hlength⟩ :=
    exists_of_mem_whitespaceNormalized h
  obtain ⟨spaces, place, rfl, hbefore, hspaced⟩ := (afterLead_eq_some_iff
    (fun _ hw => Text.of_mem_words hw) (words_ne_nil_of_mem h)).mp hlead
  have hparts : content = (front ++ spaces) ++ (place ++ tail) := by
    rw [hcontent, List.append_assoc]
  refine ⟨⟨front ++ spaces, place, tail, hparts, hspaced, fun hfeed => ?_⟩,
    ⟨front, spaces, rfl, hposition, hbefore⟩, ?_⟩
  · rw [Edge.ofSpaces_eq_line_iff.mpr hfeed] at hbefore
    cases hbefore with
    | @line blanks hblanks =>
      refine ⟨front ++ ['\n'], blanks, ?_, hblanks, .inr (Text.endsLine_concat front '\n')⟩
      rw [List.append_assoc, List.singleton_append]
    | start hstart hblanks =>
      refine ⟨front, spaces, rfl, hblanks, .inl (List.eq_nil_of_length_eq_zero ?_)⟩
      exact hposition.symm.trans (beq_iff_eq.mp hstart)
  · obtain ⟨taken, htail, -⟩ := exists_lineRest (Edge.ofSpaces search.trailingSpaces) tail
    have hsize := congrArg List.length htail
    simp only [hcontent, Candidate.stop, hposition, hlength, List.length_append] at hsize ⊢
    omega

/-- The place where an edge can be read before an occurrence is covered by a match. -/
theorem Occurrence.exists_mem (o : Occurrence content search) {front spaces : Text}
    (hfront : o.front = front ++ spaces)
    (hbefore : Edge.Before (front.length == 0) (Edge.ofSpaces search.leadingSpaces) spaces) :
    ∃ c ∈ whitespaceNormalized content search, c.position ≤ front.length ∧
      front.length < c.stop := by
  have hcontent : content = front ++ (spaces ++ (o.place ++ o.rest)) := by
    rw [← List.append_assoc, ← hfront, ← o.content_eq]
  have hdrop : content.drop front.length = spaces ++ (o.place ++ o.rest) := by
    conv_lhs => rw [hcontent, List.drop_left]
  have hlead : afterLead (Edge.ofSpaces search.leadingSpaces) search.words (front.length == 0)
      (spaces ++ (o.place ++ o.rest)) = some o.rest :=
    (afterLead_eq_some_iff (fun _ hw => Text.of_mem_words hw) o.spaced.ne_nil).mpr
      ⟨spaces, o.place, rfl, hbefore, o.spaced⟩
  have hread : readSearch search (0 + front.length == 0) (content.drop front.length) =
      some (afterTrail (Edge.ofSpaces search.trailingSpaces) o.rest) := by
    rw [readSearch, Nat.zero_add, hdrop, hlead, Option.map_some]
  have hlength : (afterTrail (Edge.ofSpaces search.trailingSpaces) o.rest).length <
      (content.drop front.length).length := by
    obtain ⟨taken, hrest, -⟩ := exists_lineRest (Edge.ofSpaces search.trailingSpaces) o.rest
    have hsize := congrArg List.length hrest
    have hpos := o.start_lt_stop
    rw [start, stop] at hpos
    simp only [hdrop, List.length_append] at hsize ⊢
    omega
  obtain ⟨stretch, hmem, hcovers⟩ := exists_mem_stretches_of_read (Nat.zero_le _) hread hlength
  rw [Nat.zero_add] at hcovers
  rw [whitespaceNormalized_eq content o.spaced.ne_nil]
  exact ⟨_, List.mem_map_of_mem hmem, hcovers⟩

/-- There is a match just if there is an occurrence. -/
theorem whitespaceNormalized_ne_nil_iff (content search : Text) :
    whitespaceNormalized content search ≠ [] ↔ Nonempty (Occurrence content search) := by
  constructor
  · intro hne
    obtain ⟨c, hc⟩ := List.exists_mem_of_ne_nil _ hne
    obtain ⟨o, -⟩ := exists_isReadAs hc
    exact ⟨o⟩
  · rintro ⟨o⟩
    obtain ⟨front, spaces, hfront, hbefore, -⟩ := o.exists_before
    obtain ⟨c, hc, -⟩ := o.exists_mem hfront hbefore
    exact List.ne_nil_of_mem hc

/-- The first match is read as the first occurrence. -/
theorem Occurrence.IsReadAs.start_le {cs : List Candidate} {o : Occurrence content search}
    (h : whitespaceNormalized content search = c :: cs) (ho : o.IsReadAs c)
    (o' : Occurrence content search) : o.start ≤ o'.start := by
  obtain ⟨front', spaces', hfront', hbefore', -⟩ := o'.exists_before
  obtain ⟨d, hd, hposition, -⟩ := o'.exists_mem hfront' hbefore'
  have hfirst : c.position ≤ d.position := by
    have hpairwise := pairwise_whitespaceNormalized content search
    rw [h] at hd hpairwise
    rcases List.mem_cons.mp hd with rfl | hlater
    · exact Nat.le_refl _
    · exact (List.rel_of_pairwise_cons hpairwise hlater).1.le
  obtain ⟨⟨front, spaces, hfront, hstart, hbefore⟩, -⟩ := ho
  -- The other occurrence does not start before the edge, and there is no word in the edge.
  have hparts : front ++ (spaces ++ (o.place ++ o.rest)) = o'.front ++ (o'.place ++ o'.rest) := by
    rw [← List.append_assoc, ← hfront, ← o.content_eq, ← o'.content_eq]
  have hle : front.length ≤ o'.front.length := by
    rw [hfront', List.length_append]
    omega
  rw [Occurrence.start, hfront, List.length_append]
  exact Text.length_le_of_startsWord hparts hbefore.forall_isSpace o'.startsWord hle

/-- **Matches of words are occurrences, and the first of them is found.** Every match has the words
of the search text and covers an occurrence of them, with no more than the rest of its line. Matches
do not overlap and stand one after another. There are some just if there is an occurrence, and the
first one covers the earliest occurrence. -/
theorem whitespaceNormalized_occurrences (content search : Text) :
    (∀ c ∈ whitespaceNormalized content search, (c.place content).words = search.words ∧
      ∃ o : Occurrence content search, o.IsCoveredBy c) ∧
    ((whitespaceNormalized content search).Pairwise fun c d =>
      c.position < d.position ∧ c.stop ≤ d.position) ∧
    (whitespaceNormalized content search ≠ [] ↔ Nonempty (Occurrence content search)) ∧
    ∀ c ∈ (whitespaceNormalized content search).head?, ∃ o : Occurrence content search,
      o.IsCoveredBy c ∧ ∀ o' : Occurrence content search, o.start ≤ o'.start := by
  refine ⟨fun c hc => ⟨?_, ?_⟩, pairwise_whitespaceNormalized content search,
    whitespaceNormalized_ne_nil_iff content search, fun c hc => ?_⟩
  · have hblank : search.isBlank = false :=
      Bool.eq_false_iff.mpr (mt Text.words_eq_nil_iff.mpr (words_ne_nil_of_mem hc))
    exact (covers_of_mem_whitespaceNormalized hblank hc).words_eq
  · obtain ⟨o, ho⟩ := exists_isReadAs hc
    exact ⟨o, ho.isCoveredBy⟩
  · obtain ⟨cs, hcs⟩ := List.head?_eq_some_iff.mp hc
    obtain ⟨o, ho⟩ := exists_isReadAs (List.mem_of_mem_head? hc)
    exact ⟨o, ho.isCoveredBy, ho.start_le hcs⟩

end Match

end Emend
