import Emend.Proofs.SimilarityBounds
import Emend.Proofs.Words

/-!
# Indentation that lines share

A block of lines loses the indentation that those of its lines share which are more than spaces and
tabs (`Text.sharedIndent`), line by line (`Text.dedent_eq_map`). Two blocks are the same after that
if and only if one is the other shifted (`Text.dedent_eq_iff`): what they share is then not only
what stands before their lines, since the lines may go on alike with more spaces and tabs, and then
both lose these too (`Text.margin_map_append`). Only spaces are lost at all (`Text.map_strip_dedent`).
-/

namespace Emend.Text

/-- The indentation that the lines share which are more than spaces and tabs. -/
def sharedIndent (ls : List Text) : Text := margin (ls.filter fun l => !l.all isIndent)

/-- A line without the indentation of its block; one of spaces and tabs only becomes empty. -/
def dedentLine (shift line : Text) : Text := (clearIndent line).drop shift.length

/-- A line and the one beside it are both nothing but spaces and tabs, or they are the same after
`p` and `q`. -/
def AlikeAfter (p q line other : Text) : Prop :=
  line.all isIndent = other.all isIndent ∧
    (line.all isIndent = false → ∃ x, line = p ++ x ∧ other = q ++ x)

/-- Blocks of lines are the same but for a shift: the lines of nothing but spaces and tabs stand at
the same places, and the others are the same after some spaces and tabs, which are the same for all
lines of a block. -/
def ShiftedAlike (ls ms : List Text) : Prop :=
  ∃ p q, (∀ c ∈ p, isIndent c = true) ∧ (∀ c ∈ q, isIndent c = true) ∧
    List.Forall₂ (AlikeAfter p q) ls ms

variable {ls ms : List Text} {line p q s : Text} {c : Char}

/-! ## What the lines share -/

/-- The shared indentation is a part of that of each line. -/
theorem margin_isPrefix_indent (h : line ∈ ls) : margin ls <+: indent line := by
  fun_induction margin ls with
  | case1 => cases h
  | case2 m =>
    rw [List.mem_singleton.mp h]
  | case3 m n ls ih =>
    obtain ⟨hfirst, hrest⟩ := shared_prefix (indent m) (margin (n :: ls))
    rcases List.mem_cons.mp h with rfl | h
    · exact hfirst
    · exact hrest.trans (ih h)

/-- The shared indentation is spaces and tabs. -/
theorem isIndent_of_mem_margin (h : c ∈ margin ls) : isIndent c = true := by
  fun_induction margin ls with
  | case1 => cases h
  | case2 l => exact isIndent_of_mem_indent h
  | case3 l m ls =>
    obtain ⟨hfirst, -⟩ := shared_prefix (indent l) (margin (m :: ls))
    exact isIndent_of_mem_indent (hfirst.subset h)

theorem clearIndent_of_all (h : line.all isIndent = true) : clearIndent line = [] := if_pos h

theorem clearIndent_of_not_all (h : line.all isIndent = false) : clearIndent line = line :=
  if_neg (Bool.eq_false_iff.mp h)

/-- The lines that are not empty once cleared are those that are more than spaces and tabs. -/
theorem filter_clearIndent (ls : List Text) :
    (ls.map clearIndent).filter (!·.isEmpty) = ls.filter fun l => !l.all isIndent := by
  induction ls with
  | nil => rfl
  | cons l ls ih =>
    cases h : l.all isIndent with
    | true => simp [clearIndent_of_all h, h, ih]
    | false =>
      have hne : l ≠ [] := by
        rintro rfl
        cases h
      simp [clearIndent_of_not_all h, h, hne, ih]

/-- A block loses its indentation line by line. -/
theorem dedent_eq_map (ls : List Text) : dedent ls = ls.map (dedentLine (sharedIndent ls)) := by
  unfold dedent
  dsimp only
  rw [filter_clearIndent, List.map_map]
  rfl

theorem dedentLine_of_all (h : line.all isIndent = true) (s : Text) : dedentLine s line = [] := by
  rw [dedentLine, clearIndent_of_all h, List.drop_nil]

/-- A line that is more than spaces and tabs is the shared indentation and what it is without. -/
theorem append_dedentLine (hmem : line ∈ ls) (h : line.all isIndent = false) :
    sharedIndent ls ++ dedentLine (sharedIndent ls) line = line := by
  have hkept : line ∈ ls.filter fun l => !l.all isIndent :=
    List.mem_filter.mpr ⟨hmem, by rw [h, Bool.not_false]⟩
  have hprefix : sharedIndent ls <+: line :=
    (margin_isPrefix_indent hkept).trans (List.takeWhile_prefix isIndent)
  rw [dedentLine, clearIndent_of_not_all h]
  exact List.prefix_iff_eq_append.mp hprefix

/-- Nothing is left of a line just if it is nothing but spaces and tabs. -/
theorem dedentLine_eq_nil_iff (hmem : line ∈ ls) :
    dedentLine (sharedIndent ls) line = [] ↔ line.all isIndent = true := by
  refine ⟨fun hnil => ?_, fun h => dedentLine_of_all h _⟩
  by_contra hvisible
  rw [Bool.not_eq_true] at hvisible
  -- The line is then nothing but the shared indentation.
  have hline := append_dedentLine hmem hvisible
  rw [hnil, List.append_nil] at hline
  rw [← hline, List.all_eq_false] at hvisible
  obtain ⟨c, hc, hnot⟩ := hvisible
  exact hnot (isIndent_of_mem_margin hc)

/-- Lines without the indentation that they share are the same but for the spaces around them. -/
theorem map_strip_dedent (ls : List Text) : (dedent ls).map strip = ls.map strip := by
  rw [dedent_eq_map, List.map_map]
  refine List.map_congr_left fun line hmem => ?_
  show strip (dedentLine (sharedIndent ls) line) = strip line
  cases h : line.all isIndent with
  | true =>
    have hblank : line.isBlank = true :=
      List.all_eq_true.mpr fun c hc => isSpace_of_isIndent (List.all_eq_true.mp h c hc)
    rw [dedentLine_of_all h, strip_of_isBlank hblank]
    rfl
  | false =>
    have hspaces : ∀ c ∈ sharedIndent ls, isSpace c = true := fun _ hc =>
      isSpace_of_isIndent (isIndent_of_mem_margin hc)
    rw [← strip_append_of_isSpace hspaces, append_dedentLine hmem h]

/-! ## Blocks that are shifted alike -/

/-- Texts that start alike share what they go on with as well. -/
theorem shared_append (p s t : Text) : shared (p ++ s) (p ++ t) = p ++ shared s t := by
  induction p with
  | nil => rfl
  | cons c p ih => simp [shared, ih]

/-- An indentation before all lines is shared by them. -/
theorem margin_map_append (hp : ∀ c ∈ p, isIndent c = true) (hne : ls ≠ []) :
    margin (ls.map (p ++ ·)) = p ++ margin ls := by
  fun_induction margin ls with
  | case1 => exact absurd rfl hne
  | case2 l => exact indent_append hp l
  | case3 l m ls ih =>
    have ih := ih (List.cons_ne_nil m ls)
    rw [List.map_cons] at ih
    rw [List.map_cons, List.map_cons, margin, ih, indent_append hp, shared_append]

/-- The lines of two blocks that are more than spaces and tabs are the same lines shifted. -/
theorem exists_filter_eq_map (h : List.Forall₂ (AlikeAfter p q) ls ms) :
    ∃ xs : List Text, ls.filter (fun l => !l.all isIndent) = xs.map (p ++ ·) ∧
      ms.filter (fun l => !l.all isIndent) = xs.map (q ++ ·) := by
  induction h with
  | nil => exact ⟨[], rfl, rfl⟩
  | @cons line other ls ms halike _ ih =>
    obtain ⟨xs, hls, hms⟩ := ih
    obtain ⟨hall, hrest⟩ := halike
    cases hline : line.all isIndent with
    | true => exact ⟨xs, by simp [hline, hls], by simp [← hall, hline, hms]⟩
    | false =>
      obtain ⟨x, rfl, rfl⟩ := hrest hline
      refine ⟨x :: xs, ?_, ?_⟩
      · rw [List.filter_cons_of_pos (by rw [hline, Bool.not_false]), hls, List.map_cons]
      · rw [List.filter_cons_of_pos (by rw [← hall, hline, Bool.not_false]), hms, List.map_cons]

/-- Blocks are the same without their indentation if they are so line by line. -/
theorem dedent_eq_iff_zip :
    dedent ls = dedent ms ↔ ls.length = ms.length ∧ ∀ {line other}, (line, other) ∈ ls.zip ms →
      dedentLine (sharedIndent ls) line = dedentLine (sharedIndent ms) other := by
  rw [dedent_eq_map, dedent_eq_map, ← List.forall₂_eq_eq_eq, List.forall₂_map_left_iff,
    List.forall₂_map_right_iff, List.forall₂_iff_zip]

/-- Blocks that are the same without their indentation are shifted alike. -/
theorem shiftedAlike_of_dedent_eq (h : dedent ls = dedent ms) : ShiftedAlike ls ms := by
  obtain ⟨hlength, hlines⟩ := dedent_eq_iff_zip.mp h
  refine ⟨sharedIndent ls, sharedIndent ms, fun _ => isIndent_of_mem_margin,
    fun _ => isIndent_of_mem_margin, List.forall₂_iff_zip.mpr ⟨hlength, ?_⟩⟩
  intro line other hmem
  obtain ⟨hline, hother⟩ := List.of_mem_zip hmem
  have hsame := hlines hmem
  have hall : line.all isIndent = other.all isIndent := by
    rw [Bool.eq_iff_iff, ← dedentLine_eq_nil_iff hline, ← dedentLine_eq_nil_iff hother, hsame]
  refine ⟨hall, fun hvisible => ⟨dedentLine (sharedIndent ls) line, ?_, ?_⟩⟩
  · exact (append_dedentLine hline hvisible).symm
  · rw [hsame]
    exact (append_dedentLine hother (hall ▸ hvisible)).symm

/-- Blocks that are shifted alike are the same without their indentation. -/
theorem ShiftedAlike.dedent_eq (h : ShiftedAlike ls ms) : dedent ls = dedent ms := by
  obtain ⟨p, q, hp, hq, halike⟩ := h
  obtain ⟨xs, hls, hms⟩ := exists_filter_eq_map halike
  obtain ⟨hlength, hlines⟩ := List.forall₂_iff_zip.mp halike
  refine dedent_eq_iff_zip.mpr ⟨hlength, fun {line other} hmem => ?_⟩
  obtain ⟨hall, hrest⟩ := hlines hmem
  cases hline : line.all isIndent with
  | true => rw [dedentLine_of_all hline, dedentLine_of_all (hall ▸ hline)]
  | false =>
    have hne : xs ≠ [] := by
      rintro rfl
      have hkept : line ∈ ls.filter fun l => !l.all isIndent :=
        List.mem_filter.mpr ⟨(List.of_mem_zip hmem).1, by rw [hline, Bool.not_false]⟩
      rw [hls] at hkept
      cases hkept
    obtain ⟨x, rfl, rfl⟩ := hrest hline
    -- Each side loses its own shift, and both lose what the lines share after it.
    rw [dedentLine, dedentLine, clearIndent_of_not_all hline,
      clearIndent_of_not_all (hall ▸ hline), sharedIndent, sharedIndent, hls, hms,
      margin_map_append hp hne, margin_map_append hq hne, List.length_append, List.length_append,
      List.drop_length_add_append, List.drop_length_add_append]

/-- Blocks are the same without their indentation just if they are shifted alike. -/
theorem dedent_eq_iff : dedent ls = dedent ms ↔ ShiftedAlike ls ms :=
  ⟨shiftedAlike_of_dedent_eq, ShiftedAlike.dedent_eq⟩

/-- Whether blocks are shifted alike is decided without looking for the shift. -/
instance (ls ms : List Text) : Decidable (ShiftedAlike ls ms) := decidable_of_iff _ dedent_eq_iff

end Emend.Text
