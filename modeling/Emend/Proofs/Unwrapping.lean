import Emend.Apply.Edit
import Emend.Proofs.Fences
import Emend.Proofs.Thoughts

/-!
# Unwrapping undoes wrapping

An edit text that ends a line, and holds neither a fence nor an opening tag, is given back by
`unwrap` from each of the wrappings that models put around it: none, a thought before it, a fence
around it, or both (`unwrap_wrapped`). So the same comes of applying it in each of them.

A thought goes first (`withoutThoughts_thought_append`), and what it stood before holds no other
one, as neither line of a fence has a character of a tag (`not_infix_fenced`). Then the fence is the
only one, and goes too (`insideFence?_fenced`).
-/

namespace Emend

namespace Wrapping

variable {t e info tail : Text}

/-- A text without an opening tag and without a fence stays as it is. -/
theorem unwrap_of_not_infix (hopen : ¬ openTag <:+: t) (hfence : ¬ fence <:+: t) :
    unwrap t = t := by
  rw [unwrap, withoutThoughts_of_not_infix hopen, insideFence?_of_not_infix hfence]

/-- A thought before a text is taken off first. -/
theorem unwrap_thought_append (ht : ¬ closeTag <:+: t) (rest : Text) :
    unwrap (thought t ++ rest) = unwrap rest := by
  rw [unwrap, withoutThoughts_thought_append ht rest, unwrap]

/-- No tag opens in the lines of a fence. -/
theorem not_infix_fenced (hends : e.endsLine = true) (hopen : ¬ openTag <:+: e)
    (hinfo : ∀ c ∈ info, Text.isWordChar c = true ∨ c = '-') (htail : tail.isBlank = true) :
    ¬ openTag <:+: fenced info e tail := by
  obtain ⟨body, rfl⟩ := Text.exists_of_endsLine hends
  have hbreak : '\n' ∉ openTag := by decide
  have hword : Text.isWordChar '<' = false := by decide +kernel
  -- Neither line of the fence has the first character of the tag.
  have hfirst : '<' ∉ fence ++ info := by
    rw [List.mem_append, not_or]
    refine ⟨by decide, fun hmem => ?_⟩
    rcases hinfo '<' hmem with h | h
    · rw [hword] at h
      cases h
    · exact absurd h (by decide)
  have hlast : '<' ∉ fence ++ tail := by
    rw [List.mem_append, not_or]
    refine ⟨by decide, fun hmem => ?_⟩
    exact absurd (List.all_eq_true.mp htail '<' hmem) (by decide)
  have hmem : '<' ∈ openTag := by decide
  have hbody : ¬ openTag <:+: body := fun h => hopen (h.trans (List.prefix_append body _).isInfix)
  have hshape : fenced info (body ++ ['\n']) tail =
      (fence ++ info) ++ '\n' :: (body ++ '\n' :: (fence ++ tail)) := by
    simp only [fenced, List.append_assoc, List.cons_append, List.nil_append]
  rw [hshape, Text.infix_append_cons hbreak, Text.infix_append_cons hbreak]
  rintro (h | h | h)
  · exact hfirst (h.subset hmem)
  · exact hbody h
  · exact hlast (h.subset hmem)

/-- A fence around a text is taken off. -/
theorem unwrap_fenced (hends : e.endsLine = true) (hfence : ¬ fence <:+: e)
    (hopen : ¬ openTag <:+: e) (hinfo : ∀ c ∈ info, Text.isWordChar c = true ∨ c = '-')
    (htail : tail.isBlank = true) : unwrap (fenced info e tail) = e := by
  rw [unwrap, withoutThoughts_of_not_infix (not_infix_fenced hends hopen hinfo htail)]
  obtain ⟨body, rfl⟩ := Text.exists_of_endsLine hends
  have hbody : ¬ fence <:+: body := fun h => hfence (h.trans (List.prefix_append body _).isInfix)
  rw [insideFence?_fenced hinfo hbody htail]

/-- Each of the wrappings around a text is taken off. -/
theorem unwrap_eq_of_wrapped (hends : e.endsLine = true) (hfence : ¬ fence <:+: e)
    (hopen : ¬ openTag <:+: e) (hinfo : ∀ c ∈ info, Text.isWordChar c = true ∨ c = '-')
    (htail : tail.isBlank = true) (ht : ¬ closeTag <:+: t) :
    ∀ wrapped ∈ [e, thought t ++ e, fenced info e tail, thought t ++ fenced info e tail],
      unwrap wrapped = e := by
  have hbare : unwrap e = e := unwrap_of_not_infix hopen hfence
  have hfenced : unwrap (fenced info e tail) = e := unwrap_fenced hends hfence hopen hinfo htail
  simp only [List.forall_mem_cons, unwrap_thought_append ht, hbare, hfenced, List.not_mem_nil,
    false_imp_iff, implies_true, and_self]

/-- An edit text that ends a line and holds neither a fence nor an opening tag is given back by
unwrapping, whether it stands alone, after a thought, inside a fence, or inside a fence after a
thought; so it is applied in the same way in all four. The thought may hold anything but its closing
tag, and spaces may follow the closing line of the fence. -/
theorem unwrap_wrapped (hends : e.endsLine = true) (hfence : ¬ fence <:+: e)
    (hopen : ¬ openTag <:+: e) (hinfo : ∀ c ∈ info, Text.isWordChar c = true ∨ c = '-')
    (htail : tail.isBlank = true) (ht : ¬ closeTag <:+: t) :
    ∀ wrapped ∈ [e, thought t ++ e, fenced info e tail, thought t ++ fenced info e tail],
      unwrap wrapped = e ∧
      ∀ content settings, Edit.applyAuto content wrapped settings =
        Edit.applyAuto content e settings := by
  have hall := unwrap_eq_of_wrapped hends hfence hopen hinfo htail ht
  have hbare : unwrap e = e := unwrap_of_not_infix hopen hfence
  refine fun wrapped hmem => ⟨hall wrapped hmem, fun content settings => ?_⟩
  rw [Edit.applyAuto, Edit.applyAuto, hall wrapped hmem, hbare]

/-- A diff that is easily unwrapped too far: it holds a closing tag and two of the characters of a
fence, and ends with a line of spaces. -/
def nearlyWrapped : Text := "@@ -1 +1,2 @@\n-</think>\n+``\n+\n  \n".toList

/-- The diff is given back from all four wrappings, with a thought that holds an opening tag, a
fence and most of a closing tag. -/
theorem unwrap_nearlyWrapped :
    (nearlyWrapped.endsLine = true ∧ ¬ fence <:+: nearlyWrapped ∧ ¬ openTag <:+: nearlyWrapped ∧
      (∀ c ∈ "diff-2".toList, Text.isWordChar c = true ∨ c = '-') ∧
      Text.isBlank ['\n'] = true ∧ ¬ closeTag <:+: "<think>\n```\n</think".toList) ∧
    ∀ wrapped ∈ [nearlyWrapped, thought "<think>\n```\n</think".toList ++ nearlyWrapped,
        fenced "diff-2".toList nearlyWrapped ['\n'],
        thought "<think>\n```\n</think".toList ++ fenced "diff-2".toList nearlyWrapped ['\n']],
      unwrap wrapped = nearlyWrapped := by
  have hends : nearlyWrapped.endsLine = true := by decide
  have hfence : ¬ fence <:+: nearlyWrapped := by decide
  have hopen : ¬ openTag <:+: nearlyWrapped := by decide
  have hinfo : ∀ c ∈ "diff-2".toList, Text.isWordChar c = true ∨ c = '-' :=
    forall_info_of_all (by decide +kernel)
  have htail : Text.isBlank ['\n'] = true := by decide
  have ht : ¬ closeTag <:+: "<think>\n```\n</think".toList := by decide
  have hall := unwrap_wrapped hends hfence hopen hinfo htail ht
  exact ⟨⟨hends, hfence, hopen, hinfo, htail, ht⟩, fun wrapped hmem => (hall wrapped hmem).1⟩

end Wrapping

end Emend
