import Emend.Apply.Blocks
import Emend.Apply.Hunks
import Emend.Proofs.Indentation

/-!
# Where the characters of a document come from

Applying a unit brings no characters into a document but those of its own new text and line feeds:
a block brings those of its replacement (`EditBlock.mem_splice`), and a hunk those of its lines
(`Hunk.mem_content_put`). Whatever else is put in is taken from the document, as the indentation is
that a replacement or an added line is moved to.
-/

namespace Emend

namespace Text

variable {c : Char} {t l : Text} {ls : List Text}

/-! ## Lines -/

/-- A character of joined pieces is one of a piece or of the separator. -/
theorem mem_of_mem_join {sep : Text} (h : c ∈ join sep ls) : c ∈ sep ∨ ∃ l ∈ ls, c ∈ l := by
  fun_induction join sep ls with
  | case1 => cases h
  | case2 p => exact .inr ⟨p, List.mem_singleton_self p, h⟩
  | case3 p q ps ih =>
    rw [List.mem_append, List.mem_append] at h
    rcases h with (h | h) | h
    · exact .inr ⟨p, List.mem_cons_self, h⟩
    · exact .inl h
    · exact (ih h).imp_right fun ⟨l, hl, hc⟩ => ⟨l, List.mem_cons_of_mem p hl, hc⟩

/-- The characters of a piece are among those of the joined pieces. -/
theorem mem_join_of_mem {sep : Text} (hl : l ∈ ls) (hc : c ∈ l) : c ∈ join sep ls := by
  fun_induction join sep ls with
  | case1 => cases hl
  | case2 p => exact List.mem_singleton.mp hl ▸ hc
  | case3 p q ps ih =>
    rcases List.mem_cons.mp hl with rfl | hl
    · exact List.mem_append_left _ (List.mem_append_left _ hc)
    · exact List.mem_append_right _ (ih hl)

/-- A character of joined lines is one of a line, or a line feed. -/
theorem mem_of_mem_unlines (h : c ∈ unlines ls) : c = '\n' ∨ ∃ l ∈ ls, c ∈ l :=
  (mem_of_mem_join h).imp_left List.mem_singleton.mp

/-- The characters of a line are among those of the text. -/
theorem mem_of_mem_lines (hl : l ∈ lines t) (hc : c ∈ l) : c ∈ t := by
  rw [← unlines_lines t]
  exact mem_join_of_mem hl hc

/-- A body line of a text is one of its lines. -/
theorem mem_lines_of_mem_bodyLines (hl : l ∈ bodyLines t) : l ∈ lines t := by
  unfold bodyLines at hl
  split at hl
  · exact List.dropLast_subset _ hl
  · exact hl

/-- The characters of a body line are among those of the text. -/
theorem mem_of_mem_bodyLines (hl : l ∈ bodyLines t) (hc : c ∈ l) : c ∈ t :=
  mem_of_mem_lines (mem_lines_of_mem_bodyLines hl) hc

/-! ## Indentation -/

/-- The characters of the first visible line are those of a line. -/
theorem mem_of_mem_firstVisible (h : c ∈ firstVisible ls) : ∃ l ∈ ls, c ∈ l := by
  unfold firstVisible at h
  cases hfind : ls.find? (!isBlank ·) with
  | none =>
    rw [hfind] at h
    cases h
  | some l =>
    rw [hfind] at h
    exact ⟨l, List.mem_of_find?_eq_some hfind, h⟩

/-- The indentation of a line is part of it. -/
theorem mem_of_mem_indent (h : c ∈ indent l) : c ∈ l := (List.takeWhile_prefix _).subset h

/-- A line that is moved keeps its characters, apart from those of its new indentation. -/
theorem mem_of_mem_moveIndent {inner outer : Text} (h : c ∈ moveIndent inner outer l) :
    c ∈ outer ∨ c ∈ l := by
  rcases moveIndent_cases inner outer l with heq | ⟨rest, rfl, -, heq⟩
  · exact .inr (heq ▸ h)
  · rw [heq] at h
    exact (List.mem_append.mp h).imp_right (List.mem_append_right inner)

end Text

/-! ## Blocks -/

namespace EditBlock

variable {c : Char} {content search replacement place : Text}

/-- Trimming adds nothing. -/
theorem mem_of_mem_trimEdges (h : c ∈ trimEdges replacement search place) : c ∈ replacement := by
  unfold trimEdges at h
  dsimp only at h
  split at h <;> split at h
  · exact List.dropLast_subset _ (List.mem_of_mem_tail h)
  · exact List.dropLast_subset _ h
  · exact List.mem_of_mem_tail h
  · exact h

/-- A text that is moved takes its new indentation from the target. -/
theorem mem_of_mem_moved {t source target : Text} (h : c ∈ moved t source target) :
    c = '\n' ∨ c ∈ t ∨ c ∈ target := by
  have hline : c ∈ Text.unlines (Text.reindent t.bodyLines (Text.firstVisible source.lines)
      (Text.firstVisible target.lines)) → c = '\n' ∨ c ∈ t ∨ c ∈ target := by
    intro h
    rcases Text.mem_of_mem_unlines h with h | ⟨l, hl, hc⟩
    · exact .inl h
    · obtain ⟨m, hm, rfl⟩ := List.mem_map.mp hl
      rcases Text.mem_of_mem_moveIndent hc with hc | hc
      · obtain ⟨n, hn, hc⟩ := Text.mem_of_mem_firstVisible (Text.mem_of_mem_indent hc)
        exact .inr (.inr (Text.mem_of_mem_lines hn hc))
      · exact .inr (.inl (Text.mem_of_mem_bodyLines hm hc))
  unfold moved at h
  dsimp only at h
  split at h
  · rcases List.mem_append.mp h with h | h
    · exact hline h
    · exact .inl (List.mem_singleton.mp h)
  · exact hline h

/-- A replacement is fitted to a place with characters of that place. -/
theorem mem_of_mem_fitted {strategy : Strategy} {atLineStart : Bool}
    (h : c ∈ fitted replacement search place strategy atLineStart) :
    c = '\n' ∨ c ∈ replacement ∨ c ∈ place := by
  unfold fitted at h
  dsimp only at h
  split at h
  · exact (mem_of_mem_moved h).imp_right (.imp_left mem_of_mem_trimEdges)
  · exact .inr (.inl (mem_of_mem_trimEdges h))

/-- A block brings the characters of its replacement into a document, and line feeds. -/
theorem mem_splice {candidate : Candidate} (h : c ∈ splice content search replacement candidate) :
    c = '\n' ∨ c ∈ content ∨ c ∈ replacement := by
  unfold splice at h
  dsimp only at h
  rw [List.mem_append, List.mem_append] at h
  rcases h with (h | h) | h
  · exact .inr (.inl (List.mem_of_mem_take h))
  · rcases mem_of_mem_fitted h with h | h | h
    · exact .inl h
    · exact .inr (.inr h)
    · exact .inr (.inl (List.mem_of_mem_take (List.mem_of_mem_drop h)))
  · exact .inr (.inl (List.mem_of_mem_drop h))

end EditBlock

/-! ## Hunks -/

namespace Hunk

variable {c : Char} {h : Hunk} {region : List Text} {l : Text}

/-- A line of a rebuilt region stood there before, or it is inserted for a line of the hunk. -/
theorem mem_rebuildWith {insert : Text → Text} {ls : List HunkLine}
    (hl : l ∈ rebuildWith insert ls region) :
    l ∈ region ∨ l ∈ ls.map fun x => insert x.text := by
  fun_induction rebuildWith insert ls region with
  | case1 => cases hl
  | case2 text ls region ih =>
    rcases List.mem_cons.mp hl with rfl | hl
    · exact .inr List.mem_cons_self
    · exact (ih hl).imp_right (List.mem_cons_of_mem _)
  | case3 text ls region ih => exact (ih hl).imp List.mem_of_mem_tail (List.mem_cons_of_mem _)
  | case4 text ls line region ih =>
    rcases List.mem_cons.mp hl with rfl | hl
    · exact .inl List.mem_cons_self
    · exact (ih hl).imp (List.mem_cons_of_mem line) (List.mem_cons_of_mem _)
  | case5 text ls ih => exact (ih hl).imp_right (List.mem_cons_of_mem _)

/-- An inserted line takes its new indentation from the region. -/
theorem mem_of_mem_inserted {loose : Bool} {text : Text} (hc : c ∈ h.inserted region loose text) :
    c ∈ text ∨ ∃ l ∈ region, c ∈ l := by
  unfold inserted at hc
  dsimp only at hc
  split at hc
  · exact (Text.mem_of_mem_moveIndent hc).symm.imp_right fun hc =>
      Text.mem_of_mem_firstVisible (Text.mem_of_mem_indent hc)
  · exact .inl hc

end Hunk

namespace HunkState

variable {c : Char}

/-- The characters of a line are among those of the document. -/
theorem mem_content_of_mem {s : HunkState} {l : Text} (hl : l ∈ s.lines) (hc : c ∈ l) :
    c ∈ s.content :=
  List.mem_append_left _ (Text.mem_join_of_mem hl hc)

/-- A character of the document of a state is one of a line, or a line feed. -/
theorem mem_of_mem_content {s : HunkState} (hc : c ∈ s.content) :
    c = '\n' ∨ ∃ l ∈ s.lines, c ∈ l := by
  unfold content at hc
  rcases List.mem_append.mp hc with hc | hc
  · exact Text.mem_of_mem_unlines hc
  · split at hc
    · exact .inl (List.mem_singleton.mp hc)
    · cases hc

/-- Hunks start from a document with the characters of the one that is given. -/
theorem mem_content_ofContent {t : Text} (hc : c ∈ (ofContent t).content) : c = '\n' ∨ c ∈ t := by
  refine (mem_of_mem_content hc).imp_right fun ⟨l, hl, hc⟩ => ?_
  unfold ofContent at hl
  dsimp only at hl
  split at hl
  · cases hl
  · exact Text.mem_of_mem_bodyLines hl hc

end HunkState

/-- A line after a hunk was put in has the characters of lines before it and of those of the
hunk. -/
theorem Hunk.mem_lines_put {c : Char} {h : Hunk} {s : HunkState} {a : Anchor} {l : Text}
    (hl : l ∈ (h.put s a).lines) (hc : c ∈ l) :
    (∃ m ∈ s.lines, c ∈ m) ∨ ∃ x ∈ h.lines, c ∈ x.text := by
  have hregion : ∀ m ∈ (s.lines.drop a.position).take h.oldLines.length, m ∈ s.lines :=
    fun m hm => List.mem_of_mem_drop (List.mem_of_mem_take hm)
  unfold put at hl
  dsimp only at hl
  rw [List.mem_append, List.mem_append] at hl
  rcases hl with (hl | hl) | hl
  · exact .inl ⟨l, List.mem_of_mem_take hl, hc⟩
  · rcases mem_rebuildWith hl with hl | hl
    · exact .inl ⟨l, hregion l hl, hc⟩
    · obtain ⟨x, hx, rfl⟩ := List.mem_map.mp hl
      rcases mem_of_mem_inserted hc with hc | ⟨m, hm, hc⟩
      · exact .inr ⟨x, hx, hc⟩
      · exact .inl ⟨m, hregion m hm, hc⟩
  · exact .inl ⟨l, List.mem_of_mem_drop hl, hc⟩

/-- A hunk brings the characters of its lines into a document, and line feeds. -/
theorem Hunk.mem_content_put {c : Char} {h : Hunk} {s : HunkState} {a : Anchor}
    (hc : c ∈ (h.put s a).content) :
    c = '\n' ∨ c ∈ s.content ∨ ∃ x ∈ h.lines, c ∈ x.text := by
  refine (HunkState.mem_of_mem_content hc).imp_right fun ⟨l, hl, hc⟩ => ?_
  exact (mem_lines_put hl hc).imp_left fun ⟨m, hm, hc⟩ => HunkState.mem_content_of_mem hm hc

end Emend
