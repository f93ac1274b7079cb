import Emend.Text.Line
import Emend.Text.LineEnding

/-!
# Lines with their endings

A text whose lines hold no line break is taken apart again as it was put together: lines that end
alike, and a last one without an ending. `cut` finds the lines (`lines_ended`), `unifyEndings` and
`writeEndings` exchange the endings (`unifyEndings_ended`, `writeEndings_ended`), and `breaks` sees
exactly one break for each line that has one (`breaks_ended`).

All of these go line by line. The one place where a line could be read together with what follows
it is a carriage return before a line feed, which is why an ending is split off only where the rest
of the text does not complete it.
-/

namespace Emend.Text

/-- A text without a line break. -/
def IsPlain (t : Text) : Prop := '\n' ∉ t ∧ '\r' ∉ t

instance (t : Text) : Decidable (IsPlain t) := inferInstanceAs (Decidable (_ ∧ _))

/-- A text is plain if its parts are. -/
theorem isPlain_append {s t : Text} : IsPlain (s ++ t) ↔ IsPlain s ∧ IsPlain t := by
  simp only [IsPlain, List.mem_append, not_or]
  exact and_and_and_comm

/-- Lines with the same ending after each of them. -/
def ended (ending : Text) (ls : List Text) : Text := ls.flatMap (· ++ ending)

@[simp] theorem ended_nil (ending : Text) : ended ending [] = [] := rfl

@[simp] theorem ended_cons (ending l : Text) (ls : List Text) :
    ended ending (l :: ls) = l ++ ending ++ ended ending ls := rfl

/-- The first of ended lines, its ending and what follows it. -/
theorem ended_cons_append (ending l rest : Text) (ls : List Text) :
    ended ending (l :: ls) ++ rest = l ++ (ending ++ (ended ending ls ++ rest)) := by
  rw [ended_cons, List.append_assoc, List.append_assoc]

/-- Lines take as many characters as they have with their line feeds. -/
theorem length_ended (ls : List Text) : (ended ['\n'] ls).length = extent ls := by
  induction ls with
  | nil => rfl
  | cons l ls ih =>
    rw [ended_cons, List.length_append, List.length_append, ih]
    rfl

/-! ## Cutting and joining -/

/-- A text without a separator is one piece. -/
theorem cut_eq_singleton {p : Char → Bool} {t : Text} (h : ∀ c ∈ t, p c = false) :
    cut p t = [t] := by
  induction t with
  | nil => rfl
  | cons c t ih =>
    have hc : ¬ p c = true := by rw [h c List.mem_cons_self]; exact Bool.false_ne_true
    rw [cut, if_neg hc, ih fun x hx => h x (List.mem_cons_of_mem c hx)]
    rfl

/-- The first separator of a text ends its first piece. -/
theorem cut_append_cons {p : Char → Bool} {t : Text} {c : Char} (h : ∀ x ∈ t, p x = false)
    (hc : p c = true) (r : Text) : cut p (t ++ c :: r) = t :: cut p r := by
  induction t with
  | nil => rw [List.nil_append, cut, if_pos hc]
  | cons x t ih =>
    have hx : ¬ p x = true := by rw [h x List.mem_cons_self]; exact Bool.false_ne_true
    rw [List.cons_append, cut, if_neg hx, ih fun y hy => h y (List.mem_cons_of_mem x hy)]
    rfl

/-- No piece of a text holds a separator. -/
theorem forall_of_mem_cut {p : Char → Bool} {t piece : Text} (h : piece ∈ cut p t) :
    ∀ c ∈ piece, p c = false := by
  induction t generalizing piece with
  | nil =>
    rw [cut, List.mem_singleton] at h
    rw [h]
    exact List.forall_mem_nil _
  | cons c t ih =>
    rw [cut] at h
    split at h
    · rcases List.mem_cons.mp h with rfl | h
      · exact List.forall_mem_nil _
      · exact ih h
    · next hc =>
      -- The character is put in front of the first piece.
      obtain ⟨first, others, hcut⟩ := List.exists_cons_of_ne_nil (cut_ne_nil p t)
      rw [hcut] at h ih
      rcases List.mem_cons.mp h with rfl | h
      · exact List.forall_mem_cons.mpr ⟨Bool.eq_false_iff.mpr hc, ih List.mem_cons_self⟩
      · exact ih (List.mem_cons_of_mem first h)

/-- A text without line feeds has no character that a cut at line feeds looks for. -/
theorem beq_lineFeed_eq_false {t : Text} (h : '\n' ∉ t) : ∀ c ∈ t, (c == '\n') = false := by
  intro c hc
  rw [beq_eq_false_iff_ne]
  rintro rfl
  exact h hc

/-- The lines of ended lines and a rest are those lines and the rest. -/
theorem lines_ended {ls : List Text} {rest : Text} (hls : ∀ l ∈ ls, '\n' ∉ l)
    (hrest : '\n' ∉ rest) : lines (ended ['\n'] ls ++ rest) = ls ++ [rest] := by
  induction ls with
  | nil => exact cut_eq_singleton (beq_lineFeed_eq_false hrest)
  | cons l ls ih =>
    obtain ⟨hl, htail⟩ := List.forall_mem_cons.mp hls
    calc lines (ended ['\n'] (l :: ls) ++ rest)
        = lines (l ++ '\n' :: (ended ['\n'] ls ++ rest)) := by rw [ended_cons_append]; rfl
      _ = l :: lines (ended ['\n'] ls ++ rest) := cut_append_cons (beq_lineFeed_eq_false hl) rfl _
      _ = l :: (ls ++ [rest]) := by rw [ih htail]

/-- Joined lines are all but the last one ended, and the last one. -/
theorem join_concat (sep : Text) (ls : List Text) (rest : Text) :
    join sep (ls ++ [rest]) = ended sep ls ++ rest := by
  induction ls with
  | nil => rfl
  | cons l ls ih =>
    -- A separator follows the first line, since there is another one.
    obtain ⟨m, ms, hms⟩ : ∃ m ms, ls ++ [rest] = m :: ms := by
      cases ls with
      | nil => exact ⟨rest, [], rfl⟩
      | cons m ms => exact ⟨m, ms ++ [rest], rfl⟩
    rw [List.cons_append, hms, ended_cons, List.append_assoc, ← ih, hms, join, List.append_assoc]

/-- Lines with others after them are joined with an ending after each of them. -/
theorem join_append (sep : Text) (ls : List Text) {tail : List Text} (hne : tail ≠ []) :
    join sep (ls ++ tail) = ended sep ls ++ join sep tail := by
  rw [← List.dropLast_concat_getLast hne, ← List.append_assoc, join_concat, join_concat, ended,
    ended, ended, List.flatMap_append, List.append_assoc]

/-- Joined lines and one more ending are those lines ended. -/
theorem join_append_sep (sep : Text) {ls : List Text} (hne : ls ≠ []) :
    join sep ls ++ sep = ended sep ls := by
  calc join sep ls ++ sep
      = join sep (ls.dropLast ++ [ls.getLast hne]) ++ sep := by
        rw [List.dropLast_concat_getLast hne]
    _ = ended sep ls.dropLast ++ (ls.getLast hne ++ sep) := by
        rw [join_concat, List.append_assoc]
    _ = ended sep (ls.dropLast ++ [ls.getLast hne]) := by
        rw [ended, ended, List.flatMap_append, List.flatMap_singleton]
    _ = ended sep ls := by rw [List.dropLast_concat_getLast hne]

/-- A text that ends with a character that is no line feed does not end a line. -/
theorem endsLine_append {t rest : Text} (hne : rest ≠ []) (hrest : '\n' ∉ rest) :
    endsLine (t ++ rest) = false := by
  have hlast : rest.getLast hne ≠ '\n' := by
    intro hc
    exact hrest (hc ▸ List.getLast_mem hne)
  rw [endsLine, List.getLast?_append, List.getLast?_eq_some_getLast hne, Option.some_or]
  exact beq_eq_false_iff_ne.mpr fun h => hlast (Option.some.inj h)

/-- Ended lines end a line. -/
theorem endsLine_ended {ls : List Text} (hne : ls ≠ []) : endsLine (ended ['\n'] ls) = true := by
  rw [← List.dropLast_concat_getLast hne]
  simp [endsLine, ended]

/-- The body lines of ended lines are those lines. -/
theorem bodyLines_ended {ls : List Text} (hls : ∀ l ∈ ls, '\n' ∉ l) (hne : ls ≠ []) :
    bodyLines (ended ['\n'] ls) = ls := by
  have hlines := lines_ended hls (List.not_mem_nil)
  rw [List.append_nil] at hlines
  rw [bodyLines, if_pos (endsLine_ended hne), hlines, List.dropLast_concat]

/-- The body lines of ended lines and a rest that is not empty are those lines and the rest. -/
theorem bodyLines_ended_append {ls : List Text} {rest : Text} (hls : ∀ l ∈ ls, '\n' ∉ l)
    (hrest : '\n' ∉ rest) (hne : rest ≠ []) :
    bodyLines (ended ['\n'] ls ++ rest) = ls ++ [rest] := by
  rw [bodyLines, endsLine_append hne hrest, lines_ended hls hrest]
  rfl

/-! ## Exchanging the endings -/

/-- A character that is no carriage return is kept. -/
theorem unifyEndings_cons {c : Char} (h : c ≠ '\r') (t : Text) :
    unifyEndings (c :: t) = c :: unifyEndings t := by
  rw [unifyEndings, if_neg h]
  rintro _ rfl
  exact absurd rfl h

/-- Nothing is left of a text with unified endings only if it is empty. -/
theorem unifyEndings_eq_nil_iff {t : Text} : unifyEndings t = [] ↔ t = [] := by
  fun_cases unifyEndings t <;> simp

/-- A plain text in front is kept. -/
theorem unifyEndings_append {l : Text} (h : '\r' ∉ l) (t : Text) :
    unifyEndings (l ++ t) = l ++ unifyEndings t := by
  induction l with
  | nil => rfl
  | cons c l ih =>
    rw [List.mem_cons, not_or] at h
    rw [List.cons_append, unifyEndings_cons (Ne.symm h.1), ih h.2]
    rfl

/-- A text without carriage returns keeps its endings. -/
theorem unifyEndings_of_notMem {t : Text} (h : '\r' ∉ t) : unifyEndings t = t := by
  have hnil := unifyEndings_append h []
  rwa [List.append_nil, unifyEndings, List.append_nil] at hnil

/-- An ending in front becomes a line feed, unless the text after a carriage return completes it. -/
theorem unifyEndings_ending (e : LineEnding) {t : Text} (h : e = .cr → t.head? ≠ some '\n') :
    unifyEndings (e.text ++ t) = '\n' :: unifyEndings t := by
  cases e with
  | lf => exact unifyEndings_cons (by decide) t
  | crlf => rfl
  | cr =>
    show unifyEndings ('\r' :: t) = _
    rw [unifyEndings, if_pos rfl]
    rintro r - rfl
    exact h rfl rfl

/-- A character that is neither of the two is no line break. -/
theorem breaks_cons {c : Char} (hn : c ≠ '\n') (hr : c ≠ '\r') (t : Text) :
    breaks (c :: t) = breaks t := by
  rw [breaks, if_neg hn, if_neg hr]
  rintro _ rfl
  exact absurd rfl hr

/-- A plain text in front has no line break. -/
theorem breaks_append {l : Text} (h : IsPlain l) (t : Text) : breaks (l ++ t) = breaks t := by
  induction l with
  | nil => rfl
  | cons c l ih =>
    obtain ⟨hn, hr⟩ := h
    rw [List.mem_cons, not_or] at hn hr
    rw [List.cons_append, breaks_cons (Ne.symm hn.1) (Ne.symm hr.1), ih ⟨hn.2, hr.2⟩]

/-- An ending in front is a line break, unless the text after a carriage return completes it. -/
theorem breaks_ending (e : LineEnding) {t : Text} (h : e = .cr → t.head? ≠ some '\n') :
    breaks (e.text ++ t) = e :: breaks t := by
  cases e with
  | lf =>
    show breaks ('\n' :: t) = _
    rw [breaks, if_pos rfl]
    rintro _ h
    cases h
  | crlf => rfl
  | cr =>
    show breaks ('\r' :: t) = _
    rw [breaks, if_neg (by decide), if_pos rfl]
    rintro r - rfl
    exact h rfl rfl

/-- A line feed is written as the line ending. -/
theorem writeEndings_cons_feed (t ending : Text) :
    writeEndings ('\n' :: t) ending = ending ++ writeEndings t ending := rfl

/-- Any other character is written as it is. -/
theorem writeEndings_cons {c : Char} (h : c ≠ '\n') (t ending : Text) :
    writeEndings (c :: t) ending = c :: writeEndings t ending := by
  rw [writeEndings, List.flatMap_cons, if_neg h]
  rfl

/-- Lines that end with carriage returns do not start with a line feed. -/
theorem head?_ended_ne_lineFeed {ls : List Text} {rest : Text} (hls : ∀ l ∈ ls, IsPlain l)
    (hrest : IsPlain rest) {e : LineEnding} (he : e = .cr) :
    (ended e.text ls ++ rest).head? ≠ some '\n' := by
  subst he
  intro h
  cases ls with
  | nil => exact hrest.1 (List.mem_of_head? h)
  | cons l ls =>
    cases l with
    | nil => exact absurd (Option.some.inj h) (by decide)
    | cons c l =>
      obtain rfl : c = '\n' := Option.some.inj h
      exact (hls _ List.mem_cons_self).1 List.mem_cons_self

section Ended

variable {ls : List Text} {rest : Text} (hls : ∀ l ∈ ls, IsPlain l) (hrest : IsPlain rest)
  (e : LineEnding)
include hls hrest

/-- Ended lines with unified endings are the same lines ended by line feeds. -/
theorem unifyEndings_ended :
    unifyEndings (ended e.text ls ++ rest) = ended ['\n'] ls ++ rest := by
  induction ls with
  | nil => exact unifyEndings_of_notMem hrest.2
  | cons l ls ih =>
    obtain ⟨hl, htail⟩ := List.forall_mem_cons.mp hls
    calc unifyEndings (ended e.text (l :: ls) ++ rest)
        = unifyEndings (l ++ (e.text ++ (ended e.text ls ++ rest))) := by rw [ended_cons_append]
      _ = l ++ '\n' :: unifyEndings (ended e.text ls ++ rest) := by
          rw [unifyEndings_append hl.2, unifyEndings_ending e (head?_ended_ne_lineFeed htail hrest)]
      _ = l ++ (['\n'] ++ (ended ['\n'] ls ++ rest)) := by rw [ih htail]; rfl
      _ = ended ['\n'] (l :: ls) ++ rest := (ended_cons_append _ _ _ _).symm

/-- Ended lines have one line break each. -/
theorem breaks_ended : breaks (ended e.text ls ++ rest) = List.replicate ls.length e := by
  induction ls with
  | nil =>
    have hnil := breaks_append hrest []
    rwa [List.append_nil] at hnil
  | cons l ls ih =>
    obtain ⟨hl, htail⟩ := List.forall_mem_cons.mp hls
    rw [ended_cons_append, breaks_append hl, breaks_ending e (head?_ended_ne_lineFeed htail hrest),
      ih htail]
    rfl

/-- Lines that end alike have that style, and a text without a line break has line feeds. -/
theorem dominantEnding_ended :
    dominantEnding (ended e.text ls ++ rest) = if ls.isEmpty then .lf else e := by
  unfold dominantEnding
  rw [breaks_ended hls hrest e]
  cases ls with
  | nil => rfl
  | cons l ls => cases e <;> simp [List.count_replicate]

omit hls hrest in
/-- Writing the endings of a text goes piece by piece. -/
theorem writeEndings_append (s t ending : Text) :
    writeEndings (s ++ t) ending = writeEndings s ending ++ writeEndings t ending :=
  List.flatMap_append

omit hls hrest in
/-- A text without line feeds is written as it is. -/
theorem writeEndings_of_notMem {t : Text} (h : '\n' ∉ t) (ending : Text) :
    writeEndings t ending = t := by
  induction t with
  | nil => rfl
  | cons c t ih =>
    rw [List.mem_cons, not_or] at h
    rw [writeEndings_cons (Ne.symm h.1), ih h.2]

/-- Lines ended by line feeds are written as the same lines ended by the given ending. -/
theorem writeEndings_ended (ending : Text) :
    writeEndings (ended ['\n'] ls ++ rest) ending = ended ending ls ++ rest := by
  induction ls with
  | nil => exact writeEndings_of_notMem hrest.1 ending
  | cons l ls ih =>
    obtain ⟨hl, htail⟩ := List.forall_mem_cons.mp hls
    have hn : writeEndings ['\n'] ending = ending := by simp [writeEndings]
    rw [ended_cons_append, writeEndings_append, writeEndings_append, hn,
      writeEndings_of_notMem hl.1, ih htail, ended_cons_append]

end Ended

end Emend.Text
