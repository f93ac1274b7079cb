import Emend.Proofs.CandidatePlaces
import Mathlib.Data.List.DropRight

/-!
# Reading words

The words of a search text are read off a document together with an edge before them and one after
them. What each of the three readers takes is told by a relation: `Text.Spaced` for the words
(`afterWords_eq_some_iff`), `Edge.Before` for the edge before them (`afterLead_eq_some_iff`) and
`Text.LineRest` for the edge after them (`exists_lineRest`). The words are read in one way only,
since each of them starts where the spaces before it end.
-/

namespace Emend

namespace Text

/-- A text is made of words in order, with spaces between each two. -/
inductive Spaced : List Text → Text → Prop
  /-- One word. -/
  | single (w : Text) : Spaced [w] w
  /-- A word, spaces, and the other words. -/
  | cons (w : Text) {spaces t : Text} {ws : List Text} (hne : spaces ≠ [])
      (hspaces : ∀ c ∈ spaces, isSpace c = true) (h : Spaced ws t) :
      Spaced (w :: ws) (w ++ (spaces ++ t))

/-- What may be taken of the rest of a line, and what is left: spaces and tabs only if they reach
the end of the line, and the line feed there only if `feed` holds. -/
inductive LineRest (feed : Prop) : Text → Text → Prop
  /-- Nothing is taken. -/
  | nothing (rest : Text) : LineRest feed [] rest
  /-- Spaces and tabs up to the end of the line. -/
  | blanks {blanks rest : Text} (hblanks : ∀ c ∈ blanks, isIndent c = true)
      (hrest : rest = [] ∨ rest.head? = some '\n') : LineRest feed blanks rest
  /-- Spaces and tabs and the line feed after them. -/
  | line {blanks : Text} (hfeed : feed) (hblanks : ∀ c ∈ blanks, isIndent c = true)
      (rest : Text) : LineRest feed (blanks ++ ['\n']) rest

variable {s t tail taken rest : Text} {ws : List Text} {feed : Prop}

/-! ## Parts of a text -/

/-- A shorter start of a text is part of a longer one. -/
theorem exists_gap {front u : Text} (h : s ++ t = front ++ u) (hle : s.length ≤ front.length) :
    ∃ gap, front = s ++ gap ∧ t = gap ++ u := by
  rcases List.append_eq_append_iff.mp h with hgap | ⟨gap, rfl, rfl⟩
  · exact hgap
  · obtain rfl : gap = [] := by
      rw [List.length_append] at hle
      exact List.eq_nil_of_length_eq_zero (by omega)
    exact ⟨[], by rw [List.append_nil, List.append_nil], rfl⟩

/-- A character that a text does not hold does not stand within it. -/
theorem length_le_of_notMem {gap u : Text} {c : Char} (h : s ++ t = gap ++ c :: u)
    (hc : c ∉ s) : s.length ≤ gap.length := by
  by_contra hlt
  obtain ⟨more, rfl, hmore⟩ := exists_gap h.symm (Nat.le_of_not_le hlt)
  cases more with
  | nil =>
    rw [List.append_nil] at hlt
    exact hlt le_rfl
  | cons d more =>
    obtain rfl : c = d := (List.cons.inj hmore).1
    exact hc (List.mem_append_right gap List.mem_cons_self)

/-- What stands before a word and is dropped as spaces is dropped up to the word. -/
theorem dropWhile_append_of_startsWord {p : Char → Bool} (hp : ∀ c, p c = true → isSpace c = true)
    (hs : ∀ c ∈ s, p c = true) (ht : t.startsWord = true) : (s ++ t).dropWhile p = t := by
  obtain ⟨c, t, rfl⟩ := List.exists_cons_of_ne_nil (ne_nil_of_startsWord ht)
  rw [startsWord_cons, Bool.not_eq_true'] at ht
  rw [List.dropWhile_append_of_pos hs, List.dropWhile_cons_of_neg]
  intro hc
  rw [hp c hc] at ht
  cases ht

/-- Spaces and tabs hold no line feed. -/
theorem lineFeed_notMem_of_isIndent (h : ∀ c ∈ s, isIndent c = true) : '\n' ∉ s :=
  fun hmem => absurd (h '\n' hmem) (by decide)

/-- Spaces and tabs are spaces. -/
theorem forall_isSpace_of_isIndent (h : ∀ c ∈ s, isIndent c = true) :
    ∀ c ∈ s, isSpace c = true :=
  fun c hc => isSpace_of_isIndent (h c hc)

/-! ## Words with spaces between them -/

section

variable (hws : ∀ w ∈ ws, w ≠ [] ∧ ∀ c ∈ w, isSpace c = false)

include hws

/-- Words with spaces between them start with the first of them. -/
theorem Spaced.startsWord (h : Spaced ws t) : t.startsWord = true := by
  cases h with
  | single =>
    obtain ⟨hne, hw⟩ := hws t List.mem_cons_self
    exact startsWord_of_forall hne hw
  | cons w =>
    obtain ⟨hne, hw⟩ := hws w List.mem_cons_self
    rw [startsWord_append hne, startsWord_of_forall hne hw]

/-- So does a text that goes on after them. -/
theorem Spaced.startsWord_append (h : Spaced ws t) (rest : Text) :
    (t ++ rest).startsWord = true := by
  have hstarts := h.startsWord hws
  rw [Text.startsWord_append (ne_nil_of_startsWord hstarts), hstarts]

/-- Words with spaces between them end in the last of them. -/
theorem Spaced.endsWord (h : Spaced ws t) : t.endsWord = true := by
  induction h with
  | single w =>
    obtain ⟨hne, hw⟩ := hws w List.mem_cons_self
    exact endsWord_of_forall hne hw
  | @cons w spaces t ws _ _ h ih =>
    have hrest := (List.forall_mem_cons.mp hws).2
    have hne : t ≠ [] := ne_nil_of_startsWord (h.startsWord hrest)
    rw [← List.append_assoc, Text.endsWord_append _ hne, ih hrest]

/-- Words with spaces between them are the words of a text. -/
theorem Spaced.words_eq (h : Spaced ws t) : t.words = ws := by
  induction h with
  | single w =>
    obtain ⟨hne, hw⟩ := hws w List.mem_cons_self
    exact words_eq_singleton hne hw
  | @cons w spaces t ws hne hspaces h ih =>
    obtain ⟨⟨hwne, hw⟩, hrest⟩ := List.forall_mem_cons.mp hws
    obtain ⟨c, spaces, rfl⟩ := List.exists_cons_of_ne_nil hne
    obtain ⟨hc, hspaces⟩ := List.forall_mem_cons.mp hspaces
    rw [List.cons_append, words_append_space hc, words_eq_singleton hwne hw,
      words_append_left hspaces, ih hrest, List.singleton_append]

end

/-! ## The rest of a line -/

/-- What is taken of the rest of a line is spaces. -/
theorem LineRest.forall_isSpace (h : LineRest feed taken rest) : ∀ c ∈ taken, isSpace c = true := by
  cases h with
  | nothing => exact List.forall_mem_nil _
  | blanks hblanks => exact forall_isSpace_of_isIndent hblanks
  | line _ hblanks =>
    exact List.forall_mem_append.mpr ⟨forall_isSpace_of_isIndent hblanks, forall_isSpace_lineFeed⟩

/-- What is taken stops before the next line feed, or it is all up to this one and the line feed. -/
theorem LineRest.length_le_or {gap u : Text} (h : LineRest feed taken rest)
    (hparts : taken ++ rest = gap ++ '\n' :: u) :
    taken.length ≤ gap.length ∨
      feed ∧ taken = gap ++ ['\n'] ∧ ∀ c ∈ gap, isIndent c = true := by
  cases h with
  | nothing => exact .inl (Nat.zero_le _)
  | blanks hblanks =>
    exact .inl (length_le_of_notMem hparts (lineFeed_notMem_of_isIndent hblanks))
  | @line blanks hfeed hblanks =>
    rw [List.append_assoc] at hparts
    have hle := length_le_of_notMem hparts (lineFeed_notMem_of_isIndent hblanks)
    by_cases hsame : blanks.length = gap.length
    · obtain rfl := (List.append_inj hparts hsame).1
      exact .inr ⟨hfeed, rfl, hblanks⟩
    · left
      rw [List.length_append, List.length_singleton]
      omega

/-- Where a word goes on, nothing was taken, or a line was taken to its end. -/
theorem LineRest.of_startsWord (h : LineRest feed taken rest) (hrest : rest.startsWord = true) :
    taken = [] ∨ taken.endsLine = true ∧ feed := by
  cases h with
  | nothing => exact .inl rfl
  | blanks _ hend =>
    rcases hend with rfl | hhead
    · cases hrest
    · exact absurd hhead (head?_ne_of_startsWord hrest)
  | line hfeed => exact .inr ⟨endsLine_concat _ '\n', hfeed⟩

end Text

namespace Match

/-- What is read before words as an edge: nothing, or spaces and tabs, or spaces and tabs at the
start of a line, with the line feed before them unless the document starts there. -/
inductive Edge.Before (atStart : Bool) : Edge → Text → Prop
  /-- Nothing. -/
  | bare : Before atStart .bare []
  /-- Spaces and tabs. -/
  | inline {blanks : Text} (hblanks : ∀ c ∈ blanks, Text.isIndent c = true) :
      Before atStart .inline blanks
  /-- Spaces and tabs after a line feed. -/
  | line {blanks : Text} (hblanks : ∀ c ∈ blanks, Text.isIndent c = true) :
      Before atStart .line ('\n' :: blanks)
  /-- Spaces and tabs at the start of the document. -/
  | start {blanks : Text} (hstart : atStart = true)
      (hblanks : ∀ c ∈ blanks, Text.isIndent c = true) : Before atStart .line blanks

variable {t tail spaces : Text} {ws : List Text} {lead trail : Edge} {atStart : Bool}

/-- An edge before words is spaces. -/
theorem Edge.Before.forall_isSpace (h : Edge.Before atStart lead spaces) :
    ∀ c ∈ spaces, Text.isSpace c = true := by
  cases h with
  | bare => exact List.forall_mem_nil _
  | inline hblanks => exact Text.forall_isSpace_of_isIndent hblanks
  | line hblanks =>
    exact List.forall_mem_cons.mpr ⟨by decide, Text.forall_isSpace_of_isIndent hblanks⟩
  | start _ hblanks => exact Text.forall_isSpace_of_isIndent hblanks

/-- Spaces make an edge with a line feed if there is one among them. -/
theorem Edge.ofSpaces_eq_line_iff : Edge.ofSpaces spaces = .line ↔ '\n' ∈ spaces := by
  unfold Edge.ofSpaces
  split_ifs with hfeed hempty
  · exact iff_of_true rfl (List.contains_iff_mem.mp hfeed)
  · exact iff_of_false nofun fun hmem => hfeed (List.contains_iff_mem.mpr hmem)
  · exact iff_of_false nofun fun hmem => hfeed (List.contains_iff_mem.mpr hmem)

/-- A first word is read with the spaces after it, and the other words from the end of these. -/
theorem afterWords_cons_eq_some_iff {w : Text} (hne : ws ≠ []) :
    afterWords (w :: ws) t = some tail ↔
      ∃ spaces rest, t = w ++ (spaces ++ rest) ∧ spaces ≠ [] ∧
        (∀ c ∈ spaces, Text.isSpace c = true) ∧ rest.stripStart = rest ∧
        afterWords ws rest = some tail := by
  obtain ⟨v, ws, rfl⟩ := List.exists_cons_of_ne_nil hne
  rw [afterWords]
  constructor
  · intro h
    split at h
    · next c rest hafter =>
      obtain rfl := Text.after_eq_some_iff.mp hafter
      split at h
      · next hc =>
        refine ⟨c :: Text.leadingSpaces rest, Text.stripStart rest, ?_, List.cons_ne_nil _ _,
          List.forall_mem_cons.mpr ⟨hc, fun _ => Text.isSpace_of_mem_leadingSpaces⟩,
          List.dropWhile_idempotent _ _, h⟩
        rw [List.cons_append, Text.leadingSpaces_append_stripStart]
      · cases h
    · cases h
  · rintro ⟨spaces, rest, rfl, hspacesNe, hspaces, hrest, h⟩
    obtain ⟨c, spaces, rfl⟩ := List.exists_cons_of_ne_nil hspacesNe
    obtain ⟨hc, hspaces⟩ := List.forall_mem_cons.mp hspaces
    rw [Text.after_eq_some_iff.mpr rfl]
    show (if Text.isSpace c = true then
      afterWords (v :: ws) ((spaces ++ rest).dropWhile Text.isSpace) else none) = some tail
    rw [if_pos hc, List.dropWhile_append_of_pos hspaces, ← Text.stripStart, hrest, h]

section

variable (hws : ∀ w ∈ ws, w ≠ [] ∧ ∀ c ∈ w, Text.isSpace c = false) (hne : ws ≠ [])

include hws hne

/-- What is read as words is these words with spaces between them. -/
theorem afterWords_eq_some_iff :
    afterWords ws t = some tail ↔ ∃ place, t = place ++ tail ∧ Text.Spaced ws place := by
  induction ws generalizing t with
  | nil => exact absurd rfl hne
  | cons w ws ih =>
    have hrest := (List.forall_mem_cons.mp hws).2
    cases ws with
    | nil =>
      rw [afterWords, Text.after_eq_some_iff]
      constructor
      · exact fun h => ⟨w, h, .single w⟩
      · rintro ⟨place, rfl, hplace⟩
        cases hplace with
        | single => rfl
        | cons _ _ _ hnone => cases hnone
    | cons v ws =>
      have hvs := List.cons_ne_nil v ws
      rw [afterWords_cons_eq_some_iff hvs]
      constructor
      · rintro ⟨spaces, rest, rfl, hspacesNe, hspaces, -, h⟩
        obtain ⟨place, rfl, hspaced⟩ := (ih hrest hvs).mp h
        refine ⟨w ++ (spaces ++ place), ?_, .cons w hspacesNe hspaces hspaced⟩
        rw [List.append_assoc, List.append_assoc]
      · rintro ⟨place, rfl, hplace⟩
        cases hplace with
        | @cons w spaces place _ hspacesNe hspaces hspaced =>
          refine ⟨spaces, place ++ tail, ?_, hspacesNe, hspaces, ?_,
            (ih hrest hvs).mpr ⟨place, rfl, hspaced⟩⟩
          · rw [List.append_assoc, List.append_assoc]
          · -- The other words start where the spaces end.
            exact Text.dropWhile_append_of_startsWord (fun _ => id) (List.forall_mem_nil _)
              (hspaced.startsWord_append hrest tail)

/-- What is read as words after an edge is such an edge and these words with spaces between
them. -/
theorem afterLead_eq_some_iff :
    afterLead lead ws atStart t = some tail ↔
      ∃ spaces place, t = spaces ++ (place ++ tail) ∧ Edge.Before atStart lead spaces ∧
        Text.Spaced ws place := by
  have hindent (t : Text) : ∀ c ∈ t.takeWhile Text.isIndent, Text.isIndent c = true :=
    fun _ => List.mem_takeWhile_imp
  constructor
  · intro h
    -- What follows the spaces and tabs at the start of a text is read as words.
    have hread {t : Text} (h : afterWords ws (t.dropWhile Text.isIndent) = some tail) :
        ∃ place, t = t.takeWhile Text.isIndent ++ (place ++ tail) ∧ Text.Spaced ws place := by
      obtain ⟨place, hplace, hspaced⟩ := (afterWords_eq_some_iff hws hne).mp h
      refine ⟨place, ?_, hspaced⟩
      rw [← hplace, List.takeWhile_append_dropWhile]
    cases lead with
    | bare =>
      obtain ⟨place, rfl, hspaced⟩ := (afterWords_eq_some_iff hws hne).mp h
      exact ⟨[], place, rfl, .bare, hspaced⟩
    | inline =>
      obtain ⟨place, ht, hspaced⟩ := hread h
      exact ⟨_, place, ht, .inline (hindent t), hspaced⟩
    | line =>
      unfold afterLead at h
      dsimp only at h
      split at h
      · next rest =>
        obtain ⟨place, hrest, hspaced⟩ := hread h
        exact ⟨_, place, congrArg _ hrest, .line (hindent rest), hspaced⟩
      · split at h
        · next hstart =>
          obtain ⟨place, ht, hspaced⟩ := hread h
          exact ⟨_, place, ht, .start hstart (hindent t), hspaced⟩
        · cases h
  · rintro ⟨spaces, place, rfl, hbefore, hspaced⟩
    have hstarts := hspaced.startsWord_append hws tail
    have hread {blanks : Text} (hblanks : ∀ c ∈ blanks, Text.isIndent c = true) :
        afterWords ws ((blanks ++ (place ++ tail)).dropWhile Text.isIndent) = some tail := by
      rw [Text.dropWhile_append_of_startsWord (fun _ => Text.isSpace_of_isIndent) hblanks hstarts]
      exact (afterWords_eq_some_iff hws hne).mpr ⟨place, rfl, hspaced⟩
    cases hbefore with
    | bare => exact (afterWords_eq_some_iff hws hne).mpr ⟨place, rfl, hspaced⟩
    | inline hblanks => exact hread hblanks
    | line hblanks => exact hread hblanks
    | start hstart hblanks =>
      unfold afterLead
      dsimp only
      split
      · next rest hhead =>
        -- Neither spaces and tabs nor a word start with a line feed.
        cases spaces with
        | nil =>
          rw [List.nil_append] at hhead
          rw [hhead] at hstarts
          cases hstarts
        | cons c spaces =>
          obtain rfl : c = '\n' := (List.cons.inj hhead).1
          exact absurd List.mem_cons_self (Text.lineFeed_notMem_of_isIndent hblanks)
      · rw [if_pos hstart, hread hblanks]

end

/-- What is read as the edge after words is the rest of a line. -/
theorem exists_lineRest (trail : Edge) (t : Text) :
    ∃ taken, t = taken ++ afterTrail trail t ∧
      Text.LineRest (trail = .line) taken (afterTrail trail t) := by
  have hblanks : ∀ c ∈ t.takeWhile Text.isIndent, Text.isIndent c = true :=
    fun _ => List.mem_takeWhile_imp
  have hparts : t = t.takeWhile Text.isIndent ++ t.dropWhile Text.isIndent :=
    List.takeWhile_append_dropWhile.symm
  unfold afterTrail
  split
  · exact ⟨[], rfl, .nothing t⟩
  · next hdrop => exact ⟨_, hdrop ▸ hparts, .blanks hblanks (.inl rfl)⟩
  · next c rest hdrop =>
    split_ifs with hc
    · exact ⟨_, hdrop ▸ hparts, .blanks hblanks (.inr (congrArg some hc))⟩
    · exact ⟨[], rfl, .nothing t⟩
  · next c rest hdrop =>
    split_ifs with hc
    · refine ⟨t.takeWhile Text.isIndent ++ ['\n'], ?_, .line rfl hblanks rest⟩
      rw [List.append_assoc, List.singleton_append, ← hc, ← hdrop, ← hparts]
    · exact ⟨[], rfl, .nothing t⟩

/-- A line that goes on with nothing but spaces and tabs is read to its end as an edge with a line
feed. -/
theorem afterTrail_line {blanks : Text} (hblanks : ∀ c ∈ blanks, Text.isIndent c = true)
    (rest : Text) : afterTrail .line (blanks ++ '\n' :: rest) = rest := by
  have hdrop : (blanks ++ '\n' :: rest).dropWhile Text.isIndent = '\n' :: rest := by
    rw [List.dropWhile_append_of_pos hblanks, List.dropWhile_cons_of_neg (by decide)]
  unfold afterTrail
  rw [hdrop]
  exact if_pos rfl

end Match

end Emend
