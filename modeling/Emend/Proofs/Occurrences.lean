import Emend.Text.Basic
import Mathlib.Data.List.Infix

/-!
# Where a word occurs in a text

A text starts with a word just if the word is a prefix of it (`startsWith_iff`), and the word
occurs in the text just if it is an infix of it (`occursIn_iff`). Of two texts one after the other,
the first occurrence of a word is the one in the second text if none begins in the first
(`afterFirst_append_of_apart`). Two things keep an occurrence from reaching from one text into the
other: a character between them that the word does not have (`infix_append_cons`), and a word whose
first character it does not have again, where the second text starts with the word itself
(`afterFirst_append_word`).
-/

namespace Emend.Text

variable {word s t : Text} {c : Char}

/-- A word has nothing after it in a text that does not start with it. -/
theorem after_eq_none_iff : after word t = none ↔ ¬ word <+: t := by
  rw [Option.eq_none_iff_forall_ne_some]
  constructor
  · rintro h ⟨rest, rfl⟩
    exact h rest (after_eq_some_iff.mpr rfl)
  · intro h rest hrest
    exact h ⟨rest, (after_eq_some_iff.mp hrest).symm⟩

/-- A text starts with a word just if the word is a prefix of it. -/
theorem startsWith_iff : startsWith word t = true ↔ word <+: t := by
  rw [startsWith, Option.isSome_iff_ne_none, ne_eq, after_eq_none_iff, not_not]

/-- A word that is no infix of a text has no first occurrence in it. -/
theorem afterFirst_eq_none_iff : afterFirst word t = none ↔ ¬ word <:+: t := by
  induction t with
  | nil => rw [afterFirst, after_eq_none_iff, List.prefix_nil, List.infix_nil]
  | cons c t ih =>
    rw [List.infix_cons_iff, not_or, ← ih, ← after_eq_none_iff, afterFirst]
    cases after word (c :: t) with
    | none => simp
    | some rest => simp

/-- A word that a text starts with occurs there first. -/
theorem afterFirst_of_after {rest : Text} (h : after word t = some rest) :
    afterFirst word t = some rest := by
  cases t with
  | nil => exact h
  | cons c t => rw [afterFirst, h]

/-- What follows any occurrence of a word ends what follows the first one. -/
theorem exists_afterFirst (front word rest : Text) :
    ∃ tail, afterFirst word (front ++ (word ++ rest)) = some tail ∧ rest <:+ tail := by
  induction front with
  | nil => exact ⟨rest, afterFirst_of_after (after_eq_some_iff.mpr rfl), List.suffix_rfl⟩
  | cons c front ih =>
    cases h : after word (c :: (front ++ (word ++ rest))) with
    | none =>
      rw [List.cons_append, afterFirst, h]
      exact ih
    | some tail =>
      -- Both are what is left of the text, and the word stood earlier.
      have heq := after_eq_some_iff.mp h
      have hlength := congrArg List.length heq
      simp only [List.length_cons, List.length_append] at hlength
      have hrest : rest <:+ word ++ tail :=
        heq ▸ (List.suffix_append word rest).trans (List.suffix_append (c :: front) _)
      have htail : tail <:+ word ++ tail := List.suffix_append word tail
      exact ⟨tail, afterFirst_of_after h, List.suffix_of_suffix_length_le hrest htail (by omega)⟩

/-- A word occurs in a text just if it is an infix of it. -/
theorem occursIn_iff : occursIn word t = true ↔ word <:+: t := by
  rw [occursIn, Option.isSome_iff_ne_none, ne_eq, afterFirst_eq_none_iff, not_not]

/-! ## Texts one after the other -/

/-- A word that a text starts with ends before the first character that it does not have. -/
theorem prefix_append_cons (hc : c ∉ word) : word <+: s ++ c :: t ↔ word <+: s := by
  refine ⟨fun h => ?_, fun h => h.trans (List.prefix_append s _)⟩
  rcases List.prefix_or_prefix_of_prefix h (List.prefix_append s (c :: t)) with hs | ⟨u, rfl⟩
  · exact hs
  · -- What the word has beyond `s` would start with the character.
    rw [List.prefix_append_right_inj] at h
    cases u with
    | nil => rw [List.append_nil]
    | cons d u =>
      obtain ⟨rfl, -⟩ := List.cons_prefix_cons.mp h
      exact absurd (List.mem_append_right s List.mem_cons_self) hc

/-- A word stands before or after a character that it does not have. -/
theorem infix_append_cons (hc : c ∉ word) :
    word <:+: s ++ c :: t ↔ word <:+: s ∨ word <:+: t := by
  induction s with
  | nil =>
    have hnil : word <+: [] ++ c :: t ↔ word <+: [] := prefix_append_cons hc
    rw [List.nil_append] at hnil ⊢
    rw [List.infix_cons_iff, hnil, List.prefix_nil, List.infix_nil]
  | cons d s ih =>
    rw [List.cons_append, List.infix_cons_iff, ih, ← List.cons_append, prefix_append_cons hc,
      List.infix_cons_iff, or_assoc]

/-- The first occurrence of a word is that in the second text, if none begins in the first. -/
theorem afterFirst_append_of_apart (h : ∀ v, v <:+ s → v ≠ [] → ¬ word <+: v ++ t) :
    afterFirst word (s ++ t) = afterFirst word t := by
  induction s with
  | nil => rfl
  | cons c s ih =>
    have hhere : after word (c :: (s ++ t)) = none :=
      after_eq_none_iff.mpr (h (c :: s) List.suffix_rfl (List.cons_ne_nil c s))
    rw [List.cons_append, afterFirst, hhere]
    exact ih fun v hv => h v (hv.trans (List.suffix_cons c s))

/-- No occurrence of a word begins in a text that has none of its characters. -/
theorem not_prefix_append_of_notMem (hne : word ≠ []) (h : ∀ c ∈ s, c ∉ word) (t : Text) :
    ∀ v, v <:+ s → v ≠ [] → ¬ word <+: v ++ t := by
  intro v hv hv' hstarts
  cases v with
  | nil => exact hv' rfl
  | cons c v =>
    cases word with
    | nil => exact hne rfl
    | cons w ws =>
      obtain ⟨rfl, -⟩ := List.cons_prefix_cons.mp hstarts
      exact h w (hv.subset List.mem_cons_self) List.mem_cons_self

/-- No occurrence of a word begins in a text that holds none, if the word itself comes after it and
does not have its first character again. -/
theorem not_prefix_append_word {w : Char} {ws : Text} (hw : w ∉ ws) (hs : ¬ (w :: ws) <:+: s)
    (rest : Text) : ∀ v, v <:+ s → v ≠ [] → ¬ (w :: ws) <+: v ++ (w :: ws ++ rest) := by
  intro v hv hv' hstarts
  cases v with
  | nil => exact hv' rfl
  | cons c v =>
    obtain ⟨rfl, htail⟩ := List.cons_prefix_cons.mp hstarts
    have hinner : ws <+: v := (prefix_append_cons hw).mp htail
    exact hs ((List.cons_prefix_cons.mpr ⟨rfl, hinner⟩).isInfix.trans hv.isInfix)

/-- An occurrence of a word is the first one if the text before it holds no other, provided that the
word does not have its first character again. -/
theorem afterFirst_append_word {w : Char} {ws : Text} (hw : w ∉ ws) (hs : ¬ (w :: ws) <:+: s)
    (rest : Text) : afterFirst (w :: ws) (s ++ (w :: ws ++ rest)) = some rest := by
  rw [afterFirst_append_of_apart (not_prefix_append_word hw hs rest)]
  exact afterFirst_of_after (after_eq_some_iff.mpr rfl)

end Emend.Text
