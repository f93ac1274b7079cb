import Emend.Edit.Wrapping
import Emend.Proofs.Occurrences
import Emend.Proofs.Rows
import Mathlib.Data.List.TakeWhile

/-!
# Fences around an edit text

A fence is only taken off a text that starts with one, up to spaces (`insideFence?_of_not_prefix`),
so that a text without a fence stays as it is (`insideFence?_of_not_infix`). Of a fenced text that
holds no other fence all is left that stood between the two lines of the fence
(`insideFence?_fenced`): the closing line is looked for after every line feed, but what follows an
earlier one starts with no fence, even behind spaces and tabs.
-/

namespace Emend.Wrapping

variable {t body info tail : Text}

/-- A text between the two lines of a fence, of which the second one may have spaces after it. -/
def fenced (info body tail : Text) : Text := fence ++ (info ++ '\n' :: (body ++ (fence ++ tail)))

/-! ## Texts without a fence -/

/-- What follows the opening line of a fence comes after a fence. -/
theorem prefix_of_afterOpening? (h : afterOpening? t = some body) : fence <+: t.stripStart := by
  unfold afterOpening? at h
  split at h
  · next rest hrest => exact ⟨rest, (Text.after_eq_some_iff.mp hrest).symm⟩
  · cases h

/-- No fence is taken off a text that does not start with one. -/
theorem insideFence?_of_not_prefix (h : ¬ fence <+: t.stripStart) : insideFence? t = none := by
  have hnone : afterOpening? t = none :=
    Option.eq_none_iff_forall_ne_some.mpr fun body hbody => h (prefix_of_afterOpening? hbody)
  rw [insideFence?, hnone]
  rfl

/-- No fence is taken off a text without one. -/
theorem insideFence?_of_not_infix (h : ¬ fence <:+: t) : insideFence? t = none := by
  refine insideFence?_of_not_prefix fun hstarts => h ?_
  exact hstarts.isInfix.trans (List.dropWhile_suffix _).isInfix

/-! ## Fenced texts -/

/-- An info string is checked character by character. -/
theorem forall_info_of_all (h : (info.all fun c => Text.isWordChar c || c == '-') = true) :
    ∀ c ∈ info, Text.isWordChar c = true ∨ c = '-' := by
  simpa only [List.all_eq_true, Bool.or_eq_true, beq_iff_eq] using h

/-- After the opening line of a fence comes what was written after it. -/
theorem afterOpening?_fence_append (hinfo : ∀ c ∈ info, Text.isWordChar c = true ∨ c = '-')
    (rest : Text) : afterOpening? (fence ++ (info ++ '\n' :: rest)) = some rest := by
  have hstart : Text.stripStart (fence ++ (info ++ '\n' :: rest)) =
      fence ++ (info ++ '\n' :: rest) := List.dropWhile_cons_of_neg (by decide)
  have hafter : Text.after fence (fence ++ (info ++ '\n' :: rest)) = some (info ++ '\n' :: rest) :=
    Text.after_eq_some_iff.mpr rfl
  have hline : (info ++ '\n' :: rest).dropWhile (fun c => Text.isWordChar c || c == '-') =
      '\n' :: rest := by
    rw [List.dropWhile_append_of_pos fun c hc => by simpa using hinfo c hc]
    exact List.dropWhile_cons_of_neg (by decide +kernel)
  have hbreak : ('\n' :: rest).dropWhile Text.isIndent = '\n' :: rest :=
    List.dropWhile_cons_of_neg (by decide)
  rw [afterOpening?, hstart, hafter]
  dsimp only
  rw [hline, hbreak]
  rfl

/-- A line feed ends the spaces and tabs that a text starts with. -/
theorem dropWhile_isIndent_append (s rest : Text) :
    (s ++ '\n' :: rest).dropWhile Text.isIndent = s.dropWhile Text.isIndent ++ '\n' :: rest := by
  rw [List.dropWhile_append]
  split
  · next h =>
    rw [List.isEmpty_iff.mp h]
    exact List.dropWhile_cons_of_neg (by decide)
  · rfl

/-- What starts with a line without a fence does not start with the closing line of one. -/
theorem isClosing_append_of_not_infix (h : ¬ fence <:+: t) (rest : Text) :
    isClosing (t ++ '\n' :: rest) = false := by
  have hnone : Text.after fence (t.dropWhile Text.isIndent ++ '\n' :: rest) = none := by
    rw [Text.after_eq_none_iff, Text.prefix_append_cons (by decide)]
    exact fun hstarts => h (hstarts.isInfix.trans (List.dropWhile_suffix _).isInfix)
  rw [isClosing, dropWhile_isIndent_append, hnone]

/-- A fence with nothing but spaces after it is the closing line of a fence. -/
theorem isClosing_fence_append (h : tail.isBlank = true) : isClosing (fence ++ tail) = true := by
  have hstart : (fence ++ tail).dropWhile Text.isIndent = fence ++ tail :=
    List.dropWhile_cons_of_neg (by decide)
  have hafter : Text.after fence (fence ++ tail) = some tail := Text.after_eq_some_iff.mpr rfl
  rw [isClosing, hstart, hafter]
  exact h

/-- The closing line of a fence is not found before the end of a text without a fence. -/
theorem beforeClosing?_append (hbody : ¬ fence <:+: body) (htail : tail.isBlank = true) :
    beforeClosing? (body ++ '\n' :: (fence ++ tail)) = some body := by
  induction body with
  | nil => rw [List.nil_append, beforeClosing?, isClosing_fence_append htail]; rfl
  | cons c body ih =>
    have hrest : ¬ fence <:+: body := fun h => hbody (h.trans (List.suffix_cons c body).isInfix)
    rw [List.cons_append, beforeClosing?, isClosing_append_of_not_infix hrest, Bool.and_false,
      if_neg Bool.false_ne_true, ih hrest]
    rfl

/-- A fence is taken off a text that holds no other one. -/
theorem insideFence?_fenced (hinfo : ∀ c ∈ info, Text.isWordChar c = true ∨ c = '-')
    (hbody : ¬ fence <:+: body) (htail : tail.isBlank = true) :
    insideFence? (fenced info (body ++ ['\n']) tail) = some body := by
  have hopen : afterOpening? (fenced info (body ++ ['\n']) tail) =
      some (body ++ '\n' :: (fence ++ tail)) := by
    rw [fenced, List.append_assoc]
    exact afterOpening?_fence_append hinfo _
  have hclose : (some (body ++ '\n' :: (fence ++ tail))).bind beforeClosing? = some body :=
    beforeClosing?_append hbody htail
  have honly : ¬ Text.occursIn fence body = true := mt Text.occursIn_iff.mp hbody
  rw [insideFence?, hopen, hclose]
  exact if_neg honly

/-! ## What stands inside a fence -/

/-- What follows the opening line of a fence ends the text, and stands after a line feed there. No
carriage return is part of the line. -/
theorem exists_of_afterOpening? (h : afterOpening? t = some body) :
    ∃ lead line, t = lead ++ (fence ++ (line ++ '\n' :: body)) ∧ '\r' ∉ line := by
  unfold afterOpening? at h
  split at h
  · next rest hrest =>
    split at h
    · next opened hopened =>
      cases h
      refine ⟨t.leadingSpaces, rest.takeWhile (fun c => Text.isWordChar c || c == '-') ++
        (rest.dropWhile fun c => Text.isWordChar c || c == '-').takeWhile Text.isIndent, ?_, ?_⟩
      · rw [← hopened, List.append_assoc, List.takeWhile_append_dropWhile,
          List.takeWhile_append_dropWhile, ← Text.after_eq_some_iff.mp hrest,
          Text.leadingSpaces_append_stripStart]
      · rw [List.mem_append, not_or]
        constructor
        · exact fun hmem => absurd (List.mem_takeWhile_imp hmem) (by decide +kernel)
        · exact fun hmem => absurd (List.mem_takeWhile_imp hmem) (by decide)
    · cases h
  · cases h

/-- What comes before the closing line of a fence is shorter than what comes before its end. -/
theorem length_lt_of_beforeClosing? (h : beforeClosing? t = some body) :
    body.length < t.length := by
  induction t generalizing body with
  | nil => cases h
  | cons c t ih =>
    rw [beforeClosing?] at h
    split at h
    · cases h
      exact Nat.succ_pos _
    · obtain ⟨rest, hrest, rfl⟩ := Option.map_eq_some_iff.mp h
      exact Nat.succ_lt_succ (ih hrest)

/-- What stands inside a fence is shorter than the fenced text. -/
theorem length_lt_of_insideFence? (h : insideFence? t = some body) : body.length < t.length := by
  unfold insideFence? at h
  split at h
  · next inner hinner =>
    split at h
    · cases h
    · cases h
      obtain ⟨opened, hopen, hclose⟩ := Option.bind_eq_some_iff.mp hinner
      obtain ⟨lead, line, rfl, -⟩ := exists_of_afterOpening? hopen
      have hshorter := length_lt_of_beforeClosing? hclose
      simp only [List.length_append, List.length_cons]
      omega
  · cases h

end Emend.Wrapping
