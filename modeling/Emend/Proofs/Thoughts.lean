import Emend.Edit.Wrapping
import Emend.Proofs.Occurrences

/-!
# Thoughts in an edit text

A text holds a thought if a closing tag comes somewhere after an opening one (`HoldsThought`). Such
a text gets shorter when its thoughts are taken off, and any other text stays as it is
(`withoutThoughts_eq_self_iff`). A thought at the start of a text is taken off up to the closing tag
that was written after it, whatever else it holds (`withoutThoughts_thought_append`), since no
character of a tag but the first one starts a tag.
-/

namespace Emend

namespace Wrapping

variable {t rest : Text} {c : Char}

/-- A closing tag comes somewhere after an opening tag in a text. -/
def HoldsThought (t : Text) : Prop :=
  ∃ front rest, t = front ++ (openTag ++ rest) ∧ closeTag <:+: rest

/-- A text holds a thought just if a closing tag comes after the first opening one. -/
theorem holdsThought_iff :
    HoldsThought t ↔ ((Text.afterFirst openTag t).any (Text.occursIn closeTag)) = true := by
  rw [Option.any_eq_true]
  constructor
  · rintro ⟨front, rest, rfl, hclose⟩
    obtain ⟨tail, htail, hsuffix⟩ := Text.exists_afterFirst front openTag rest
    exact ⟨tail, htail, Text.occursIn_iff.mpr (hclose.trans hsuffix.isInfix)⟩
  · rintro ⟨tail, htail, hclose⟩
    obtain ⟨front, rfl⟩ := Text.eq_append_of_afterFirst htail
    exact ⟨front, tail, List.append_assoc front openTag tail, Text.occursIn_iff.mp hclose⟩

instance (t : Text) : Decidable (HoldsThought t) := decidable_of_iff _ holdsThought_iff.symm

/-! ## One thought -/

/-- What follows the closing tag of the thought that a text starts with. -/
def afterTags? (t : Text) : Option Text :=
  match Text.after openTag t with
  | some rest => Text.afterFirst closeTag rest
  | none => none

/-- A thought is taken off with the line feed after it. -/
theorem afterThought?_eq (t : Text) : afterThought? t = (afterTags? t).map dropBreak := by
  unfold afterThought? afterTags?
  cases Text.after openTag t <;> rfl

/-- A thought starts with an opening tag and goes on to the first closing one after it. -/
theorem afterTags?_eq_some_iff :
    afterTags? t = some rest ↔
      ∃ mid, t = openTag ++ mid ∧ Text.afterFirst closeTag mid = some rest := by
  unfold afterTags?
  constructor
  · intro h
    split at h
    · next mid hmid => exact ⟨mid, Text.after_eq_some_iff.mp hmid, h⟩
    · cases h
  · rintro ⟨mid, rfl, hclose⟩
    have hmid : Text.after openTag (openTag ++ mid) = some mid := Text.after_eq_some_iff.mpr rfl
    rw [hmid]
    exact hclose

/-- A text starts with a thought just if it starts with an opening tag that is closed. -/
theorem afterThought?_isSome_iff :
    (afterThought? t).isSome = true ↔ ∃ rest, t = openTag ++ rest ∧ closeTag <:+: rest := by
  rw [afterThought?_eq, Option.isSome_map, Option.isSome_iff_exists]
  constructor
  · rintro ⟨tail, htail⟩
    obtain ⟨rest, rfl, hclose⟩ := afterTags?_eq_some_iff.mp htail
    exact ⟨rest, rfl, Text.occursIn_iff.mp (Option.isSome_of_mem hclose)⟩
  · rintro ⟨rest, rfl, hclose⟩
    obtain ⟨tail, htail⟩ := Option.isSome_iff_exists.mp (Text.occursIn_iff.mpr hclose)
    exact ⟨tail, afterTags?_eq_some_iff.mpr ⟨rest, rfl, htail⟩⟩

/-- A text that starts with no thought holds one just if it does so after its first character. -/
theorem holdsThought_cons_iff (h : afterThought? (c :: t) = none) :
    HoldsThought (c :: t) ↔ HoldsThought t := by
  constructor
  · rintro ⟨front, rest, heq, hclose⟩
    cases front with
    | nil =>
      have hsome := afterThought?_isSome_iff.mpr ⟨rest, heq, hclose⟩
      rw [h] at hsome
      cases hsome
    | cons d front =>
      obtain ⟨-, rfl⟩ := List.cons.inj heq
      exact ⟨front, rest, rfl, hclose⟩
  · rintro ⟨front, rest, rfl, hclose⟩
    exact ⟨c :: front, rest, rfl, hclose⟩

/-- What follows a line feed, or a text that starts with none, ends the text. -/
theorem dropBreak_suffix (t : Text) : dropBreak t <:+ t := by
  unfold dropBreak
  split
  · exact List.suffix_cons _ _
  · exact List.suffix_rfl

/-- What follows the tags of a thought ends the text. -/
theorem afterTags?_suffix (h : afterTags? t = some rest) : rest <:+ t := by
  obtain ⟨mid, rfl, hclose⟩ := afterTags?_eq_some_iff.mp h
  obtain ⟨front, rfl⟩ := Text.eq_append_of_afterFirst hclose
  exact (List.suffix_append _ rest).trans (List.suffix_append openTag _)

/-- It is shorter than the text. -/
theorem afterTags?_length_lt (h : afterTags? t = some rest) : rest.length < t.length := by
  obtain ⟨mid, rfl, hclose⟩ := afterTags?_eq_some_iff.mp h
  obtain ⟨front, rfl⟩ := Text.eq_append_of_afterFirst hclose
  have htag : 0 < openTag.length := by decide
  simp only [List.length_append]
  omega

/-- What follows a thought ends the text. -/
theorem afterThought?_suffix (h : afterThought? t = some rest) : rest <:+ t := by
  rw [afterThought?_eq] at h
  obtain ⟨tail, htail, rfl⟩ := Option.map_eq_some_iff.mp h
  exact (dropBreak_suffix tail).trans (afterTags?_suffix htail)

/-! ## All thoughts -/

/-- A thought at the start of a text is taken off. -/
theorem withoutThoughts_of_some (h : afterThought? t = some rest) :
    withoutThoughts t = withoutThoughts rest := by
  cases t with
  | nil => cases h
  | cons c t =>
    rw [withoutThoughts]
    split
    · next rest' h' => rw [Option.some.inj (h'.symm.trans h)]
    · next h' => rw [h'] at h; cases h

/-- A character that starts no thought is kept. -/
theorem withoutThoughts_of_none (h : afterThought? (c :: t) = none) :
    withoutThoughts (c :: t) = c :: withoutThoughts t := by
  rw [withoutThoughts]
  split
  · next rest' h' => rw [h] at h'; cases h'
  · rfl

/-- Taking off thoughts adds nothing. -/
theorem withoutThoughts_sublist (t : Text) : (withoutThoughts t).Sublist t := by
  induction t using withoutThoughts.induct with
  | case1 => rw [withoutThoughts]
  | case2 c t rest h ih =>
    rw [withoutThoughts_of_some h]
    exact ih.trans (afterThought?_suffix h).sublist
  | case3 c t h ih =>
    rw [withoutThoughts_of_none h]
    exact ih.cons_cons c

/-- A text stays as it is without its thoughts just if it holds none. -/
theorem withoutThoughts_eq_self_iff (t : Text) : withoutThoughts t = t ↔ ¬ HoldsThought t := by
  induction t using withoutThoughts.induct with
  | case1 =>
    refine iff_of_true (by rw [withoutThoughts]) ?_
    rintro ⟨front, rest, heq, -⟩
    have htag : openTag ++ rest = [] := (List.append_eq_nil_iff.mp heq.symm).2
    exact absurd (List.append_eq_nil_iff.mp htag).1 (by decide)
  | case2 c t rest h ih =>
    -- What is left is shorter than the text.
    have hlength := (withoutThoughts_sublist rest).length_le
    have hshorter := afterThought?_length_lt h
    refine iff_of_false (fun heq => ?_) (not_not.mpr ?_)
    · rw [withoutThoughts_of_some h] at heq
      rw [heq] at hlength
      omega
    · have hsome : (afterThought? (c :: t)).isSome = true := by rw [h]; rfl
      obtain ⟨rest, heq, hclose⟩ := afterThought?_isSome_iff.mp hsome
      exact ⟨[], rest, heq, hclose⟩
  | case3 c t h ih =>
    rw [withoutThoughts_of_none h, holdsThought_cons_iff h, ← ih, List.cons_inj_right]

/-- A text without an opening tag stays as it is. -/
theorem withoutThoughts_of_not_infix (h : ¬ openTag <:+: t) : withoutThoughts t = t := by
  rw [withoutThoughts_eq_self_iff]
  rintro ⟨front, rest, rfl, -⟩
  exact h (List.infix_append' front openTag rest)

/-- A text in which no opening tag begins is kept. -/
theorem withoutThoughts_append {s : Text}
    (h : ∀ v, v <:+ s → v ≠ [] → ¬ openTag <+: v ++ t) :
    withoutThoughts (s ++ t) = s ++ withoutThoughts t := by
  induction s with
  | nil => rfl
  | cons c s ih =>
    have hnone : afterThought? (c :: (s ++ t)) = none := by
      rw [← Option.not_isSome_iff_eq_none, afterThought?_isSome_iff]
      rintro ⟨rest, heq, -⟩
      exact h (c :: s) List.suffix_rfl (List.cons_ne_nil c s) ⟨rest, heq.symm⟩
    rw [List.cons_append, withoutThoughts_of_none hnone,
      ih fun v hv => h v (hv.trans (List.suffix_cons c s)), List.cons_append]

/-- A text that holds no opening tag is kept if one comes right after it. -/
theorem withoutThoughts_append_openTag {s : Text} (hs : ¬ openTag <:+: s) (rest : Text) :
    withoutThoughts (s ++ (openTag ++ rest)) = s ++ withoutThoughts (openTag ++ rest) :=
  withoutThoughts_append (Text.not_prefix_append_word (by decide) hs rest)

/-- A thought as it is written before an edit text. -/
def thought (t : Text) : Text := openTag ++ t ++ closeTag ++ ['\n']

/-- The closing tag of a thought is the one that was written, if the thought holds no other. -/
theorem afterTags?_thought_append (ht : ¬ closeTag <:+: t) (rest : Text) :
    afterTags? (thought t ++ rest) = some ('\n' :: rest) := by
  refine afterTags?_eq_some_iff.mpr ⟨t ++ (closeTag ++ '\n' :: rest), ?_, ?_⟩
  · simp only [thought, List.append_assoc, List.cons_append, List.nil_append]
  · exact Text.afterFirst_append_word (by decide) ht _

/-- A thought is taken off from the start of a text, whatever it holds but its closing tag. -/
theorem withoutThoughts_thought_append (ht : ¬ closeTag <:+: t) (rest : Text) :
    withoutThoughts (thought t ++ rest) = withoutThoughts rest := by
  refine withoutThoughts_of_some ?_
  rw [afterThought?_eq, afterTags?_thought_append ht]
  rfl

end Wrapping

end Emend
