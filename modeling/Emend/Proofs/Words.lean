import Emend.Proofs.Indentation
import Emend.Proofs.Rows
import Mathlib.Data.List.Basic
import Mathlib.Data.List.Induction
import Mathlib.Tactic.SplitIfs

/-!
# Words of texts that are put together

The words of a text are those of its parts, unless a word runs across the border: the first part
ends in a word (`endsWord`) and the second one starts with one (`startsWord`). Then the last word of
the first part and the first word of the second one are a single word (`words_append`). So a part of
a text may be replaced by another one with the same words if and only if words run across the same
borders as before (`words_replace_iff`). Spaces around a text and the way in which its lines are
put together say nothing about its words (`words_strip`, `words_unlines`).
-/

namespace Emend.Text

/-- Whether the first character of a text is part of a word. -/
def startsWord (t : Text) : Bool := t.head?.any (!isSpace ·)

/-- Whether the last character of a text is part of a word. -/
def endsWord (t : Text) : Bool := t.getLast?.any (!isSpace ·)

variable {s t u v : Text} {c : Char}

theorem startsWord_cons (c : Char) (t : Text) : startsWord (c :: t) = !isSpace c := by
  rw [startsWord, List.head?_cons, Option.any_some]

theorem endsWord_concat (s : Text) (c : Char) : endsWord (s ++ [c]) = !isSpace c := by
  rw [endsWord, List.getLast?_concat]
  rfl

/-- A text that starts with a word is not empty. -/
theorem ne_nil_of_startsWord (h : t.startsWord = true) : t ≠ [] := by
  rintro rfl
  cases h

/-- A text that ends in a word is not empty. -/
theorem ne_nil_of_endsWord (h : t.endsWord = true) : t ≠ [] := by
  rintro rfl
  cases h

/-- What is appended to a text does not change how it starts. -/
theorem startsWord_append (hs : s ≠ []) (t : Text) : startsWord (s ++ t) = startsWord s := by
  obtain ⟨c, s, rfl⟩ := List.exists_cons_of_ne_nil hs
  rfl

/-- What a text is appended to does not change how it ends. -/
theorem endsWord_append (s : Text) (ht : t ≠ []) : endsWord (s ++ t) = endsWord t := by
  rw [← List.dropLast_concat_getLast ht, ← List.append_assoc, endsWord_concat, endsWord_concat]

/-- Whether a text ends in a word is decided after its last space. -/
theorem endsWord_append_space (hc : isSpace c = true) (s t : Text) :
    endsWord (s ++ c :: t) = endsWord t := by
  cases t with
  | nil =>
    rw [endsWord_concat, hc]
    rfl
  | cons d t =>
    rw [endsWord_append s (List.cons_ne_nil c (d :: t))]
    exact endsWord_append [c] (List.cons_ne_nil d t)

/-- A line feed is a space. -/
theorem forall_isSpace_lineFeed : ∀ c ∈ ['\n'], isSpace c = true :=
  List.forall_mem_singleton.mpr rfl

/-- A line feed is not part of a word. -/
theorem head?_ne_of_startsWord (h : t.startsWord = true) : t.head? ≠ some '\n' := by
  intro hhead
  rw [startsWord, hhead] at h
  cases h

/-- A text that ends in a word does not end a line. -/
theorem endsLine_of_endsWord (h : t.endsWord = true) : t.endsLine = false := by
  refine Bool.eq_false_iff.mpr fun hline => ?_
  obtain ⟨s, rfl⟩ := exists_of_endsLine hline
  rw [endsWord_concat] at h
  cases h

theorem startsWord_of_forall (hne : s ≠ []) (h : ∀ c ∈ s, isSpace c = false) :
    startsWord s = true := by
  obtain ⟨c, s, rfl⟩ := List.exists_cons_of_ne_nil hne
  rw [startsWord_cons, h c List.mem_cons_self, Bool.not_false]

theorem endsWord_of_forall (hne : s ≠ []) (h : ∀ c ∈ s, isSpace c = false) : endsWord s = true := by
  rw [← List.dropLast_concat_getLast hne, endsWord_concat, h _ (List.getLast_mem hne),
    Bool.not_false]

/-! ## One word -/

theorem words_nil : words [] = [] := rfl

/-- A space parts the words before it from those after it. -/
theorem words_append_space (hc : isSpace c = true) (s t : Text) :
    words (s ++ c :: t) = words s ++ words t := by
  rw [words, cut_append_separator hc, List.filter_append]
  rfl

/-- Spaces hold no words. -/
theorem words_eq_nil (h : ∀ c ∈ s, isSpace c = true) : words s = [] := by
  induction s with
  | nil => rfl
  | cons c s ih =>
    obtain ⟨hc, hs⟩ := List.forall_mem_cons.mp h
    exact (words_append_space hc [] s).trans (ih hs)

/-- A text without a space is a single word. -/
theorem words_eq_singleton (hne : s ≠ []) (h : ∀ c ∈ s, isSpace c = false) : words s = [s] := by
  rw [words, cut_eq_singleton h]
  exact List.filter_cons_of_pos (by simpa using hne)

/-! ## Two texts -/

/-- Words are not empty and hold no spaces. -/
theorem of_mem_words {w : Text} (h : w ∈ words t) : w ≠ [] ∧ ∀ c ∈ w, isSpace c = false := by
  obtain ⟨hcut, hne⟩ := List.mem_filter.mp h
  exact ⟨by simpa using hne, forall_of_mem_cut hcut⟩

/-- Where no word runs across the border the words of two texts follow each other. -/
theorem words_append_of_not (h : ¬(s.endsWord = true ∧ t.startsWord = true)) :
    words (s ++ t) = words s ++ words t := by
  rcases List.eq_nil_or_concat' s with rfl | ⟨s, a, rfl⟩
  · rfl
  cases t with
  | nil => rw [List.append_nil, words_nil, List.append_nil]
  | cons b t =>
    rw [endsWord_concat, startsWord_cons, Bool.not_eq_true', Bool.not_eq_true'] at h
    by_cases ha : isSpace a = true
    · rw [List.append_assoc, List.singleton_append, words_append_space ha,
        words_append_space ha, words_nil, List.append_nil]
    · have hb : isSpace b = true := by
        by_contra hb
        exact h ⟨Bool.eq_false_iff.mpr ha, Bool.eq_false_iff.mpr hb⟩
      have ht : words (b :: t) = words t := words_append_space hb [] t
      rw [words_append_space hb, ht]

/-- No word runs across a border before which none ends. -/
theorem words_append_of_endsWord (h : s.endsWord = false) (t : Text) :
    words (s ++ t) = words s ++ words t :=
  words_append_of_not fun hboth => Bool.false_ne_true (h.symm.trans hboth.1)

/-- No word runs across a border after which none starts. -/
theorem words_append_of_startsWord (s : Text) (h : t.startsWord = false) :
    words (s ++ t) = words s ++ words t :=
  words_append_of_not fun hboth => Bool.false_ne_true (h.symm.trans hboth.2)

/-- A text ends with a stretch of characters of one word, before which no word ends. -/
theorem exists_last_word (s : Text) :
    ∃ front word, s = front ++ word ∧ front.endsWord = false ∧ ∀ c ∈ word, isSpace c = false := by
  induction s using List.reverseRecOn with
  | nil => exact ⟨[], [], rfl, rfl, List.forall_mem_nil _⟩
  | append_singleton s c ih =>
    by_cases hc : isSpace c = true
    · refine ⟨s ++ [c], [], (List.append_nil _).symm, ?_, List.forall_mem_nil _⟩
      rw [endsWord_concat, hc, Bool.not_true]
    · obtain ⟨front, word, rfl, hfront, hword⟩ := ih
      refine ⟨front, word ++ [c], List.append_assoc _ _ _, hfront,
        List.forall_mem_append.mpr ⟨hword, ?_⟩⟩
      exact List.forall_mem_singleton.mpr (Bool.eq_false_iff.mpr hc)

/-- A text starts with a stretch of characters of one word, after which no word starts. -/
theorem exists_first_word (t : Text) :
    ∃ word rest, t = word ++ rest ∧ rest.startsWord = false ∧ ∀ c ∈ word, isSpace c = false := by
  induction t with
  | nil => exact ⟨[], [], rfl, rfl, List.forall_mem_nil _⟩
  | cons c t ih =>
    by_cases hc : isSpace c = true
    · refine ⟨[], c :: t, rfl, ?_, List.forall_mem_nil _⟩
      rw [startsWord_cons, hc, Bool.not_true]
    · obtain ⟨word, rest, rfl, hrest, hword⟩ := ih
      exact ⟨c :: word, rest, rfl, hrest,
        List.forall_mem_cons.mpr ⟨Bool.eq_false_iff.mpr hc, hword⟩⟩

/-- Where a word runs across the border, it is the last word of the first text and the first word of
the second one put together. -/
theorem exists_of_words_append (hs : s.endsWord = true) (ht : t.startsWord = true) :
    ∃ ws u v vs, words s = ws ++ [u] ∧ words t = v :: vs ∧
      words (s ++ t) = ws ++ (u ++ v) :: vs := by
  obtain ⟨front, u, rfl, hfront, hu⟩ := exists_last_word s
  obtain ⟨v, rest, rfl, hrest, hv⟩ := exists_first_word t
  have hune : u ≠ [] := by
    rintro rfl
    rw [List.append_nil, hfront] at hs
    cases hs
  have hvne : v ≠ [] := by
    rintro rfl
    rw [List.nil_append, hrest] at ht
    cases ht
  -- What stands around the border is one word, since neither of its halves has a space.
  have hboth : ∀ c ∈ u ++ v, isSpace c = false := List.forall_mem_append.mpr ⟨hu, hv⟩
  refine ⟨words front, u, v, words rest, ?_, ?_, ?_⟩
  · rw [words_append_of_endsWord hfront, words_eq_singleton hune hu]
  · rw [words_append_of_startsWord v hrest, words_eq_singleton hvne hv]
    rfl
  · have hparts : front ++ u ++ (v ++ rest) = front ++ ((u ++ v) ++ rest) := by
      simp only [List.append_assoc]
    have hne : u ++ v ≠ [] := List.append_ne_nil_of_left_ne_nil hune v
    rw [hparts, words_append_of_endsWord hfront, words_append_of_startsWord _ hrest,
      words_eq_singleton hne hboth]
    rfl

/-- The words of two lists, the last one of the first list and the first one of the second list put
together. -/
def meld (ws vs : List Text) : List Text :=
  ws.dropLast ++ (ws.getLastD [] ++ vs.headD []) :: vs.tail

/-- The words of two texts follow each other, but a word that runs across the border is one. -/
theorem words_append (s t : Text) :
    words (s ++ t) =
      if s.endsWord = true ∧ t.startsWord = true then meld (words s) (words t)
      else words s ++ words t := by
  split_ifs with h
  · obtain ⟨ws, u, v, vs, hs, ht, hboth⟩ := exists_of_words_append h.1 h.2
    rw [hboth, hs, ht, meld, List.dropLast_concat, List.getLastD_concat]
    rfl
  · exact words_append_of_not h

/-- It is one word less then. -/
theorem length_words_append (s t : Text) :
    (words (s ++ t)).length + (if s.endsWord = true ∧ t.startsWord = true then 1 else 0) =
      (words s).length + (words t).length := by
  split_ifs with h
  · obtain ⟨ws, u, v, vs, hs, ht, hboth⟩ := exists_of_words_append h.1 h.2
    rw [hboth, hs, ht]
    simp only [List.length_append, List.length_cons, List.length_nil]
    omega
  · rw [words_append_of_not h, List.length_append, Nat.add_zero]

/-! ## Replaced parts -/

/-- A part of a text is replaced by another one with the same words, so that no word runs across a
border that did not before. The words of the text stay the same if and only if the words that ran
across a border still do. -/
theorem words_replace_iff (hwords : words u = words v) (hu : u ≠ []) (hv : v ≠ [])
    (hfront : s.endsWord = true → u.startsWord = true → v.startsWord = true)
    (hback : t.startsWord = true → u.endsWord = true → v.endsWord = true) :
    words (s ++ u ++ t) = words (s ++ v ++ t) ↔
      (s.endsWord = true → v.startsWord = true → u.startsWord = true) ∧
        (t.startsWord = true → v.endsWord = true → u.endsWord = true) := by
  constructor
  · -- It is enough to count the words.
    intro heq
    have hlength := congrArg List.length heq
    have hu₁ := length_words_append (s ++ u) t
    have hu₂ := length_words_append s u
    have hv₁ := length_words_append (s ++ v) t
    have hv₂ := length_words_append s v
    rw [endsWord_append s hu] at hu₁
    rw [endsWord_append s hv] at hv₁
    rw [hwords] at hu₂
    -- A word that no longer runs across its border is one word more, and no word makes up for it.
    have hfrontLe : (if s.endsWord = true ∧ u.startsWord = true then 1 else 0) ≤
        if s.endsWord = true ∧ v.startsWord = true then 1 else 0 := by
      split_ifs with h h'
      · exact Nat.le_refl 1
      · exact absurd ⟨h.1, hfront h.1 h.2⟩ h'
      · exact Nat.zero_le 1
      · exact Nat.le_refl 0
    have hbackLe : (if u.endsWord = true ∧ t.startsWord = true then 1 else 0) ≤
        if v.endsWord = true ∧ t.startsWord = true then 1 else 0 := by
      split_ifs with h h'
      · exact Nat.le_refl 1
      · exact absurd ⟨hback h.2 h.1, h.2⟩ h'
      · exact Nat.zero_le 1
      · exact Nat.le_refl 0
    refine ⟨fun hs hstarts => ?_, fun ht hends => ?_⟩
    · by_contra hne
      rw [if_neg fun h => hne h.2] at hu₂ hfrontLe
      rw [if_pos ⟨hs, hstarts⟩] at hv₂
      omega
    · by_contra hne
      rw [if_neg fun h => hne h.1] at hu₁ hbackLe
      rw [if_pos ⟨hends, ht⟩] at hv₁
      omega
  · -- The same borders are run across, so that the words are put together in the same way.
    rintro ⟨hfront', hback'⟩
    have hsame : s.endsWord = true ∧ u.startsWord = true ↔
        s.endsWord = true ∧ v.startsWord = true :=
      ⟨fun h => ⟨h.1, hfront h.1 h.2⟩, fun h => ⟨h.1, hfront' h.1 h.2⟩⟩
    have hsame' : u.endsWord = true ∧ t.startsWord = true ↔
        v.endsWord = true ∧ t.startsWord = true :=
      ⟨fun h => ⟨hback h.2 h.1, h.2⟩, fun h => ⟨hback' h.2 h.1, h.2⟩⟩
    rw [words_append, words_append, words_append (s ++ v), words_append s v, endsWord_append s hu,
      endsWord_append s hv, hwords]
    simp only [hsame, hsame']

/-! ## Spaces and lines -/

theorem startsWord_eq_false (h : ∀ c ∈ s, isSpace c = true) : startsWord s = false := by
  cases s with
  | nil => rfl
  | cons c s => rw [startsWord_cons, h c List.mem_cons_self, Bool.not_true]

theorem endsWord_eq_false (h : ∀ c ∈ s, isSpace c = true) : endsWord s = false := by
  rcases List.eq_nil_or_concat' s with rfl | ⟨s, c, rfl⟩
  · rfl
  · rw [endsWord_concat, h c (List.mem_append_right s (List.mem_singleton_self c)), Bool.not_true]

/-- Spaces before a text hold no words. -/
theorem words_append_left (hs : ∀ c ∈ s, isSpace c = true) (t : Text) :
    words (s ++ t) = words t := by
  rw [words_append_of_endsWord (endsWord_eq_false hs), words_eq_nil hs, List.nil_append]

/-- Spaces after a text hold no words. -/
theorem words_append_right (s : Text) (ht : ∀ c ∈ t, isSpace c = true) :
    words (s ++ t) = words s := by
  rw [words_append_of_startsWord s (startsWord_eq_false ht), words_eq_nil ht, List.append_nil]

theorem isSpace_of_mem_leadingSpaces (h : c ∈ leadingSpaces t) : isSpace c = true :=
  List.mem_takeWhile_imp h

theorem isSpace_of_mem_trailingSpaces (h : c ∈ trailingSpaces t) : isSpace c = true :=
  List.mem_takeWhile_imp (List.mem_reverse.mp h)

/-- A text has the words that it has without the spaces around it. -/
theorem words_strip (t : Text) : words (strip t) = words t := by
  have hparts : leadingSpaces t ++ (strip t ++ trailingSpaces (stripStart t)) = t := by
    rw [strip, stripEnd_append_trailingSpaces, leadingSpaces_append_stripStart]
  rw [← words_append_right (strip t) fun _ => isSpace_of_mem_trailingSpaces,
    ← words_append_left fun _ => isSpace_of_mem_leadingSpaces, hparts]

/-- The words of lines that are put together are those of the lines. -/
theorem words_unlines (ls : List Text) : words (unlines ls) = ls.flatMap words := by
  induction ls with
  | nil => rfl
  | cons l ls ih =>
    cases ls with
    | nil => exact (List.flatMap_singleton words l).symm
    | cons m ls =>
      have hjoin : unlines (l :: m :: ls) = l ++ '\n' :: unlines (m :: ls) := by
        rw [unlines, join, List.append_assoc]
        rfl
      rw [hjoin, words_append_space (by decide), ih]
      rfl

/-- The words of a text are those of its lines. -/
theorem words_eq_flatMap_bodyLines (t : Text) : words t = t.bodyLines.flatMap words := by
  have hspace : ∀ c ∈ (if t.endsLine then ['\n'] else []), isSpace c = true := by
    split
    · exact forall_isSpace_lineFeed
    · exact List.forall_mem_nil _
  have hwords := words_append_right (unlines t.bodyLines) hspace
  rw [unlines_bodyLines] at hwords
  rw [hwords, words_unlines]

/-! ## Outer spaces -/

/-- The spaces before a text that starts with a word are all that are there. -/
theorem leadingSpaces_append (hs : ∀ c ∈ s, isSpace c = true) (ht : t.startsWord = true) :
    leadingSpaces (s ++ t) = s := by
  cases t with
  | nil => cases ht
  | cons c t =>
    rw [startsWord_cons, Bool.not_eq_true'] at ht
    rw [leadingSpaces, List.takeWhile_append_of_pos hs, List.takeWhile_cons_of_neg (by simp [ht]),
      List.append_nil]

/-- There are no spaces before a text that starts with a word. -/
theorem leadingSpaces_eq_nil (h : t.startsWord = true) : leadingSpaces t = [] :=
  leadingSpaces_append (List.forall_mem_nil _) h

/-- The spaces after a text that ends in a word are all that are there. -/
theorem trailingSpaces_append (hs : s.endsWord = true) (ht : ∀ c ∈ t, isSpace c = true) :
    trailingSpaces (s ++ t) = t := by
  rcases List.eq_nil_or_concat' s with rfl | ⟨s, c, rfl⟩
  · cases hs
  · rw [endsWord_concat, Bool.not_eq_true'] at hs
    rw [trailingSpaces, List.reverse_append, List.reverse_concat,
      List.takeWhile_append_of_pos fun c hc => ht c (List.mem_reverse.mp hc),
      List.takeWhile_cons_of_neg (by simp [hs]), List.append_nil, List.reverse_reverse]

/-- What is left of a text that is not blank without the spaces that it starts with starts with a
word. -/
theorem startsWord_stripStart (h : t.isBlank = false) : t.stripStart.startsWord = true := by
  have hne : t.stripStart ≠ [] := by
    intro hnil
    rw [stripStart, List.dropWhile_eq_nil_iff] at hnil
    rw [isBlank, List.all_eq_true.mpr hnil] at h
    cases h
  rw [startsWord, List.head?_eq_some_head hne, Option.any_some, Bool.not_eq_true']
  exact List.head_dropWhile_not isSpace hne

/-- What is left of a text that holds a word without the spaces that it ends with ends in a word. -/
theorem endsWord_stripEnd (h : t.isBlank = false) : t.stripEnd.endsWord = true := by
  have hblank : Text.isBlank t.reverse = false := by rw [isBlank, List.all_reverse]; exact h
  have hfirst := startsWord_stripStart hblank
  rw [startsWord] at hfirst
  rw [endsWord, stripEnd, List.getLast?_reverse]
  exact hfirst

/-- A text that starts with a word is not blank. -/
theorem isBlank_of_startsWord (h : t.startsWord = true) : t.isBlank = false := by
  by_contra hblank
  rw [startsWord_eq_false (List.all_eq_true.mp (Bool.not_eq_false _ ▸ hblank))] at h
  cases h

/-- A text that is not blank ends in a word without its outer spaces. -/
theorem endsWord_strip (h : t.isBlank = false) : t.strip.endsWord = true :=
  endsWord_stripEnd (isBlank_of_startsWord (startsWord_stripStart h))

/-- A text that is not blank starts with a word without its outer spaces. -/
theorem startsWord_strip (h : t.isBlank = false) : t.strip.startsWord = true := by
  rw [← startsWord_append (ne_nil_of_endsWord (endsWord_strip h)) (trailingSpaces t.stripStart),
    strip, stripEnd_append_trailingSpaces, startsWord_stripStart h]

/-- A text that is not blank has its words between its outer spaces. -/
theorem exists_core (h : t.isBlank = false) :
    ∃ core, t = leadingSpaces t ++ (core ++ trailingSpaces t) ∧ core.words = t.words ∧
      core.startsWord = true ∧ core.endsWord = true := by
  have hends := endsWord_strip h
  have hparts : leadingSpaces t ++ (t.strip ++ trailingSpaces t.stripStart) = t := by
    rw [strip, stripEnd_append_trailingSpaces, leadingSpaces_append_stripStart]
  -- The spaces at the end are the same whether those before the words are taken off first or not.
  have htrailing : trailingSpaces t = trailingSpaces t.stripStart := by
    conv_lhs => rw [← hparts, ← List.append_assoc]
    refine trailingSpaces_append ?_ fun _ => isSpace_of_mem_trailingSpaces
    rw [endsWord_append _ (ne_nil_of_endsWord hends), hends]
  exact ⟨t.strip, by rw [htrailing, hparts], words_strip t, startsWord_strip h, hends⟩

/-- A text that starts with a word and ends in one has no outer spaces. -/
theorem strip_eq_self (hstarts : t.startsWord = true) (hends : t.endsWord = true) :
    strip t = t := by
  have hfront := leadingSpaces_append_stripStart t
  rw [leadingSpaces_eq_nil hstarts, List.nil_append] at hfront
  have htrailing : trailingSpaces t = [] := by
    have h := trailingSpaces_append hends (List.forall_mem_nil fun c => isSpace c = true)
    rwa [List.append_nil] at h
  have hback := stripEnd_append_trailingSpaces t
  rw [htrailing, List.append_nil] at hback
  rw [strip, hfront, hback]

/-- Nothing is left of a blank text without its outer spaces. -/
theorem strip_of_isBlank (h : t.isBlank = true) : strip t = [] := by
  rw [strip, stripStart, List.dropWhile_eq_nil_iff.mpr (List.all_eq_true.mp h)]
  rfl

/-- Outer spaces are taken off once. -/
theorem strip_strip (t : Text) : strip (strip t) = strip t := by
  cases h : t.isBlank with
  | true => rw [strip_of_isBlank h, strip_of_isBlank rfl]
  | false => exact strip_eq_self (startsWord_strip h) (endsWord_strip h)

/-- Outer spaces are taken off lines once. -/
theorem map_strip_strip (ls : List Text) : (ls.map strip).map strip = ls.map strip := by
  rw [List.map_map]
  exact List.map_congr_left fun l _ => strip_strip l

/-- The first line without its outer spaces, which is empty if there is none. -/
theorem strip_headD (ls : List Text) : (ls.headD []).strip = (ls.map strip).headD [] := by
  cases ls <;> rfl

/-- A text that is not blank has words. -/
theorem words_ne_nil (h : t.isBlank = false) : words t ≠ [] := by
  obtain ⟨core, -, hwords, hstarts, -⟩ := exists_core h
  obtain ⟨word, rest, rfl, hrest, hword⟩ := exists_first_word core
  have hne : word ≠ [] := by
    rintro rfl
    rw [List.nil_append, hrest] at hstarts
    cases hstarts
  rw [← hwords, words_append_of_startsWord word hrest, words_eq_singleton hne hword]
  exact List.cons_ne_nil word _

/-- Blank texts are those without words. -/
theorem words_eq_nil_iff : t.words = [] ↔ t.isBlank = true := by
  refine ⟨fun h => ?_, fun h => words_eq_nil (List.all_eq_true.mp h)⟩
  by_contra hblank
  exact words_ne_nil (Bool.eq_false_iff.mpr hblank) h

/-- A text that is not blank ends in a word if there are no spaces after its words. -/
theorem endsWord_of_trailingSpaces (h : t.isBlank = false) (ht : t.trailingSpaces = []) :
    t.endsWord = true := by
  have hends := endsWord_stripEnd h
  have hparts := stripEnd_append_trailingSpaces t
  rw [ht, List.append_nil] at hparts
  rwa [hparts] at hends

/-- A text that ends a line has spaces at its end. -/
theorem trailingSpaces_ne_nil (h : t.endsLine = true) : t.trailingSpaces ≠ [] := by
  obtain ⟨s, rfl⟩ := exists_of_endsLine h
  rw [trailingSpaces, List.reverse_concat, List.takeWhile_cons_of_pos (by decide)]
  exact mt List.reverse_eq_nil_iff.mp (List.cons_ne_nil _ _)

/-- No word goes on after a line that ends. -/
theorem IsTerminated.endsWord_eq_false (h : t.IsTerminated) : t.endsWord = false := by
  rcases h with rfl | h
  · rfl
  · obtain ⟨s, rfl⟩ := exists_of_endsLine h
    exact endsWord_concat s '\n'

end Emend.Text
