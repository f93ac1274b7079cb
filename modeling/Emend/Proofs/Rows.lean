import Emend.Proofs.Lines

/-!
# Rows of a text

The rows of a text are cut after each row end, so that put together again they are the text
(`flatten_rows`). Where they are cut does not depend on what follows a text that is terminated,
which is one that is empty or ends with a line feed: rows, lines and unified endings of such a text
and another one after it are those of the two, one after the other (`IsTerminated.rows_append`,
`IsTerminated.mem_lines_append`, `IsTerminated.unifyEndings_append`).

A text is gone through piece by piece (`pieces_induction`): it has no end of a piece, or it starts
with a piece and its end, after which the same is asked of the rest.
-/

namespace Emend.Text

/-- A text is empty or ends with a line feed. -/
def IsTerminated (t : Text) : Prop := t = [] ∨ t.endsLine = true

instance (t : Text) : Decidable t.IsTerminated := inferInstanceAs (Decidable (_ ∨ _))

/-- A text ends a line if its last character is a line feed. -/
theorem endsLine_concat (t : Text) (c : Char) : endsLine (t ++ [c]) = (c == '\n') := by
  rw [endsLine, List.getLast?_concat]
  rfl

/-- A text that ends a line is some text and a line feed. -/
theorem exists_of_endsLine {t : Text} (h : t.endsLine = true) : ∃ s, t = s ++ ['\n'] := by
  rw [endsLine, beq_iff_eq, List.getLast?_eq_some_iff] at h
  exact h

/-- What is appended to a text decides whether it ends a line. -/
theorem endsLine_append_of_ne_nil (s : Text) {t : Text} (h : t ≠ []) :
    endsLine (s ++ t) = endsLine t := by
  rw [← List.dropLast_concat_getLast h, ← List.append_assoc, endsLine_concat, endsLine_concat]

/-- A text that ends a line is terminated. -/
theorem IsTerminated.of_endsLine {t : Text} (h : t.endsLine = true) : t.IsTerminated := .inr h

/-- Terminated texts one after another are terminated. -/
theorem IsTerminated.append {s t : Text} (hs : s.IsTerminated) (ht : t.IsTerminated) :
    (s ++ t).IsTerminated := by
  rcases ht with rfl | ht
  · rw [List.append_nil]
    exact hs
  · obtain ⟨u, rfl⟩ := exists_of_endsLine ht
    exact .inr (by rw [← List.append_assoc, endsLine_concat]; rfl)

/-- A text that is terminated is so without its first character. -/
theorem IsTerminated.tail {t : Text} (h : t.IsTerminated) : IsTerminated t.tail := by
  cases t with
  | nil => exact h
  | cons c t =>
    by_cases ht : t = []
    · exact .inl ht
    · rcases h with h | h
      · cases h
      · rw [← List.singleton_append, endsLine_append_of_ne_nil _ ht] at h
        exact .inr h

/-- Ended lines are terminated. -/
theorem isTerminated_ended (ls : List Text) : (ended ['\n'] ls).IsTerminated := by
  by_cases h : ls = []
  · rw [h]
    exact .inl rfl
  · exact .inr (endsLine_ended h)

/-- A terminated text gets no further line feed. -/
theorem IsTerminated.terminated_eq {t : Text} (h : t.IsTerminated) : t.terminated = t := by
  rcases h with rfl | h
  · rfl
  · rw [terminated, h, Bool.or_true, if_pos rfl]

/-- A text that is not terminated gets a line feed. -/
theorem terminated_of_not_isTerminated {t : Text} (h : ¬ t.IsTerminated) :
    t.terminated = t ++ ['\n'] := by
  have hcond : ¬ (t.isEmpty || t.endsLine) = true := by
    rw [Bool.or_eq_true, List.isEmpty_iff]
    exact h
  rw [terminated, if_neg hcond]

/-- A text with a final line feed, if it needs one, is terminated. -/
theorem isTerminated_terminated (t : Text) : t.terminated.IsTerminated := by
  by_cases h : t.IsTerminated
  · rw [h.terminated_eq]
    exact h
  · rw [terminated_of_not_isTerminated h]
    exact .inr (endsLine_concat t '\n')

/-! ## Pieces -/

/-- A property of texts holds of all if it holds of those in which nothing satisfies `p`, and is not
lost where some text and a character that satisfies `p` are put in front. -/
@[elab_as_elim]
theorem pieces_induction (p : Char → Bool) {motive : Text → Prop}
    (last : ∀ t, (∀ c ∈ t, p c = false) → motive t)
    (piece : ∀ body c t, (∀ x ∈ body, p x = false) → p c = true → motive t →
      motive (body ++ c :: t)) (t : Text) : motive t := by
  cases hfind : t.find? p with
  | none =>
    rw [List.find?_eq_none] at hfind
    exact last t fun c hc => Bool.eq_false_iff.mpr (hfind c hc)
  | some c =>
    obtain ⟨hc, body, rest, rfl, hbody⟩ := List.find?_eq_some_iff_append.mp hfind
    refine piece body c rest (fun x hx => ?_) hc (pieces_induction p last piece rest)
    simpa using hbody x hx
termination_by t.length
decreasing_by
  subst_vars
  simp
  omega

/-! ## Rows -/

/-- A text without a row end is one row, unless it is empty. -/
theorem rows_of_forall {t : Text} (hne : t ≠ []) (h : ∀ c ∈ t, isRowEnd c = false) :
    rows t = [t] := by
  induction t with
  | nil => exact absurd rfl hne
  | cons c t ih =>
    obtain ⟨hc, ht⟩ := List.forall_mem_cons.mp h
    rw [rows, cutAfter, if_neg (Bool.eq_false_iff.mp hc)]
    cases t with
    | nil => rfl
    | cons d t =>
      have hrest : cutAfter isRowEnd (d :: t) = [d :: t] := ih (List.cons_ne_nil d t) ht
      rw [hrest]
      rfl

/-- The first row end of a text ends its first row. -/
theorem rows_append_cons {body : Text} {c : Char} (hbody : ∀ x ∈ body, isRowEnd x = false)
    (hc : isRowEnd c = true) (t : Text) : rows (body ++ c :: t) = (body ++ [c]) :: rows t := by
  induction body with
  | nil => rw [List.nil_append, rows, cutAfter, if_pos hc]; rfl
  | cons x body ih =>
    obtain ⟨hx, hrest⟩ := List.forall_mem_cons.mp hbody
    have hcut : cutAfter isRowEnd (body ++ c :: t) = (body ++ [c]) :: rows t := ih hrest
    rw [List.cons_append, rows, cutAfter, if_neg (Bool.eq_false_iff.mp hx), hcut]
    rfl

/-- The rows of a text make up the text. -/
theorem flatten_rows (t : Text) : (rows t).flatten = t := by
  induction t using pieces_induction isRowEnd with
  | last t ht =>
    by_cases hne : t = []
    · rw [hne]
      rfl
    · rw [rows_of_forall hne ht, List.flatten_singleton]
  | piece body c t hbody hc ih =>
    rw [rows_append_cons hbody hc, List.flatten_cons, ih, List.append_assoc, List.singleton_append]

/-- What follows a terminated text does not change its rows. -/
theorem IsTerminated.rows_append {s : Text} (hs : s.IsTerminated) (t : Text) :
    rows (s ++ t) = rows s ++ rows t := by
  induction s using pieces_induction isRowEnd with
  | last s hplain =>
    rcases hs with rfl | hs
    · rfl
    · -- A text that ends a line has a row end.
      obtain ⟨u, rfl⟩ := exists_of_endsLine hs
      have hend := hplain '\n' (List.mem_append_right u List.mem_cons_self)
      exact absurd hend (by decide)
  | piece body c s hbody hc ih =>
    have hrest : s.IsTerminated := by
      cases s with
      | nil => exact .inl rfl
      | cons x s =>
        rcases hs with hnil | hs
        · exact absurd hnil (List.append_ne_nil_of_right_ne_nil _ (List.cons_ne_nil _ _))
        · rw [endsLine_append_of_ne_nil _ (List.cons_ne_nil _ _), ← List.singleton_append,
            endsLine_append_of_ne_nil _ (List.cons_ne_nil _ _)] at hs
          exact .inr hs
    rw [List.append_assoc, List.cons_append, rows_append_cons hbody hc, rows_append_cons hbody hc,
      ih hrest, List.cons_append]

/-- A row with another one after it has a row end. -/
theorem exists_isRowEnd_of_mem_dropLast {t row : Text} (h : row ∈ (rows t).dropLast) :
    ∃ c ∈ row, isRowEnd c = true := by
  induction t using pieces_induction isRowEnd with
  | last t ht =>
    by_cases hne : t = []
    · rw [hne] at h
      cases h
    · rw [rows_of_forall hne ht] at h
      cases h
  | piece body c t hbody hc ih =>
    rw [rows_append_cons hbody hc] at h
    cases hrows : rows t with
    | nil =>
      rw [hrows] at h
      cases h
    | cons r rs =>
      rw [hrows, List.dropLast_cons_cons, List.mem_cons] at h
      rcases h with rfl | h
      · exact ⟨c, List.mem_append_right body List.mem_cons_self, hc⟩
      · exact ih (hrows ▸ h)

/-! ## Row bodies -/

/-- The body of a row that ends with a line feed is what stands before it. -/
theorem rowBody_concat (body : Text) : rowBody (body ++ ['\n']) = body := by
  rw [rowBody, endsLine_concat, if_pos (by decide), List.dropLast_concat]

/-- A row that does not end with a line feed is its own body. -/
theorem rowBody_of_not_endsLine {row : Text} (h : row.endsLine = false) : rowBody row = row := by
  rw [rowBody, h, if_neg Bool.false_ne_true]

/-- A text without a row end is its own body. -/
theorem rowBody_of_forall {t : Text} (h : ∀ c ∈ t, isRowEnd c = false) : rowBody t = t := by
  refine rowBody_of_not_endsLine (Bool.eq_false_iff.mpr fun hends => ?_)
  obtain ⟨u, rfl⟩ := exists_of_endsLine hends
  exact absurd (h '\n' (List.mem_append_right u List.mem_cons_self)) (by decide)

/-- One more line feed at the end of a text adds an empty body at most. -/
theorem rowBody_of_mem_rows_concat {t row : Text} (h : row ∈ rows (t ++ ['\n'])) :
    rowBody row = [] ∨ ∃ old ∈ rows t, rowBody row = rowBody old := by
  induction t using pieces_induction isRowEnd with
  | last t ht =>
    rw [rows_append_cons ht rfl] at h
    obtain rfl : row = t ++ ['\n'] := by simpa [rows, cutAfter] using h
    rw [rowBody_concat]
    by_cases hne : t = []
    · exact .inl hne
    · exact .inr ⟨t, by rw [rows_of_forall hne ht]; exact List.mem_cons_self,
        (rowBody_of_forall ht).symm⟩
  | piece body c t hbody hc ih =>
    rw [List.append_assoc, List.cons_append, rows_append_cons hbody hc, List.mem_cons] at h
    rw [rows_append_cons hbody hc]
    rcases h with rfl | h
    · exact .inr ⟨body ++ [c], List.mem_cons_self, rfl⟩
    · rcases ih h with hnil | ⟨old, hold, hbodies⟩
      · exact .inl hnil
      · exact .inr ⟨old, List.mem_cons_of_mem _ hold, hbodies⟩

/-- The rows of a text with a final line feed have the bodies of its rows, and an empty body at
most. -/
theorem rowBody_of_mem_rows_terminated {t row : Text} (h : row ∈ rows t.terminated) :
    rowBody row = [] ∨ ∃ old ∈ rows t, rowBody row = rowBody old := by
  by_cases ht : t.IsTerminated
  · rw [ht.terminated_eq] at h
    exact .inr ⟨row, h, rfl⟩
  · rw [terminated_of_not_isTerminated ht] at h
    exact rowBody_of_mem_rows_concat h

/-! ## Lines -/

/-- A separator parts a text in two, whose pieces follow each other. -/
theorem cut_append_separator {p : Char → Bool} {c : Char} (hc : p c = true) (s t : Text) :
    cut p (s ++ c :: t) = cut p s ++ cut p t := by
  induction s with
  | nil =>
    have hcut : cut p (c :: t) = [] :: cut p t := if_pos hc
    rw [List.nil_append, hcut]
    rfl
  | cons x s ih =>
    rw [List.cons_append, cut, cut, ih]
    obtain ⟨q, qs, hs⟩ := List.exists_cons_of_ne_nil (cut_ne_nil p s)
    rw [hs]
    split <;> rfl

/-- The lines of what follows a terminated text are lines of the whole. -/
theorem IsTerminated.mem_lines_append {s : Text} (hs : s.IsTerminated) {t line : Text}
    (h : line ∈ lines t) : line ∈ lines (s ++ t) := by
  rcases hs with rfl | hs
  · exact h
  · obtain ⟨u, rfl⟩ := exists_of_endsLine hs
    rw [List.append_assoc, List.singleton_append, lines, cut_append_separator rfl]
    exact List.mem_append_right _ h

/-- The body lines of a text make it, with a line feed after them if it ends with one. -/
theorem unlines_bodyLines (t : Text) :
    unlines t.bodyLines ++ (if t.endsLine then ['\n'] else []) = t := by
  unfold bodyLines
  by_cases h : t.endsLine = true
  · obtain ⟨s, rfl⟩ := exists_of_endsLine h
    have hlines : lines (s ++ ['\n']) = lines s ++ [[]] := cut_append_separator rfl s []
    rw [if_pos h, if_pos h, hlines, List.dropLast_concat, unlines_lines]
  · rw [if_neg h, if_neg h, List.append_nil, unlines_lines]

/-- A line of a text follows a terminated text and is followed by a line feed, unless it is the
last. -/
theorem exists_of_mem_lines {t line : Text} (h : line ∈ lines t) :
    ∃ front rest, t = front ++ (line ++ rest) ∧ front.IsTerminated ∧
      ∀ c ∈ rest.head?, c = '\n' := by
  induction t using pieces_induction (· == '\n') with
  | last t ht =>
    rw [lines, cut_eq_singleton ht, List.mem_singleton] at h
    subst h
    exact ⟨[], [], (List.append_nil _).symm, .inl rfl, fun c hc => by cases hc⟩
  | piece body c t hbody hc ih =>
    obtain rfl : c = '\n' := beq_iff_eq.mp hc
    rw [lines, cut_append_cons hbody hc, List.mem_cons] at h
    rcases h with rfl | h
    · exact ⟨[], '\n' :: t, rfl, .inl rfl, fun c hc => (Option.some.inj hc).symm⟩
    · obtain ⟨front, rest, ht, hfront, hrest⟩ := ih h
      refine ⟨body ++ ['\n'] ++ front, rest, ?_, ?_, hrest⟩
      · rw [ht, List.append_assoc, List.append_assoc, List.singleton_append]
      · exact (IsTerminated.of_endsLine (endsLine_concat body '\n')).append hfront

/-! ## Unified endings -/

/-- Endings are unified part by part, unless one of them stands across the parts. -/
theorem unifyEndings_append_of_apart {s t : Text}
    (h : s.getLast? = some '\r' → t.head? ≠ some '\n') :
    unifyEndings (s ++ t) = unifyEndings s ++ unifyEndings t := by
  fun_induction unifyEndings s with
  | case1 => rfl
  | case2 r ih =>
    have hr : r.getLast? = some '\r' → t.head? ≠ some '\n' := by
      intro hlast
      rw [List.getLast?_cons, List.getLast?_cons, hlast] at h
      exact h rfl
    rw [List.cons_append, List.cons_append, unifyEndings, ih hr, List.cons_append]
  | case3 c r hc ih =>
    have hr : r.getLast? = some '\r' → t.head? ≠ some '\n' := by
      intro hlast
      rw [List.getLast?_cons, hlast] at h
      exact h rfl
    -- A carriage return is completed neither by the rest of its part nor by the other part.
    have hbreak : ∀ u, c = '\r' → r ++ t = '\n' :: u → False := by
      rintro u rfl hu
      cases r with
      | nil => exact h rfl (congrArg List.head? hu)
      | cons x r =>
        obtain ⟨rfl, -⟩ := List.cons.inj hu
        exact hc r rfl rfl
    rw [List.cons_append, unifyEndings, ih hr, List.cons_append]
    exact hbreak

/-- Endings after a terminated text are unified on their own. -/
theorem IsTerminated.unifyEndings_append {s : Text} (hs : s.IsTerminated) (t : Text) :
    Text.unifyEndings (s ++ t) = Text.unifyEndings s ++ Text.unifyEndings t := by
  refine unifyEndings_append_of_apart fun hlast => ?_
  rcases hs with rfl | hs
  · cases hlast
  · rw [endsLine, hlast] at hs
    exact absurd hs (by decide)

/-- A carriage return at the end becomes a line feed, and so does one that a line feed completes. -/
theorem unifyEndings_append_return (t : Text) {rest : Text} (h : rest = [] ∨ rest = ['\n']) :
    unifyEndings (t ++ '\r' :: rest) = unifyEndings t ++ ['\n'] := by
  have hapart : ('\r' :: rest).head? ≠ some '\n' :=
    fun heq => absurd (Option.some.inj heq) (by decide)
  rw [unifyEndings_append_of_apart fun _ => hapart]
  rcases h with rfl | rfl <;> rfl

/-- A text that ends a line still does with unified endings. -/
theorem IsTerminated.unifyEndings {t : Text} (h : t.IsTerminated) :
    (Text.unifyEndings t).IsTerminated := by
  rcases h with rfl | h
  · exact .inl rfl
  · obtain ⟨s, rfl⟩ := exists_of_endsLine h
    by_cases hlast : s.getLast? = some '\r'
    · -- The line feed completes a carriage return.
      obtain ⟨u, rfl⟩ := List.getLast?_eq_some_iff.mp hlast
      rw [List.append_assoc, List.singleton_append, unifyEndings_append_return u (.inr rfl)]
      exact .of_endsLine (endsLine_concat _ _)
    · rw [unifyEndings_append_of_apart fun h => absurd h hlast]
      exact .of_endsLine (endsLine_concat _ _)

/-- A final line feed may be added before or after endings are unified. -/
theorem unifyEndings_terminated (t : Text) :
    unifyEndings t.terminated = (unifyEndings t).terminated := by
  by_cases h : t.IsTerminated
  · rw [h.terminated_eq, h.unifyEndings.terminated_eq]
  · rw [terminated_of_not_isTerminated h]
    have hne : t ≠ [] := fun hnil => h (.inl hnil)
    obtain ⟨u, c, rfl⟩ : ∃ u c, t = u ++ [c] := ⟨_, _, (List.dropLast_concat_getLast hne).symm⟩
    have hn : c ≠ '\n' := by
      rintro rfl
      exact h (.of_endsLine (endsLine_concat u '\n'))
    by_cases hr : c = '\r'
    · -- With unified endings the text already ends with a line feed.
      subst hr
      rw [List.append_assoc, List.singleton_append, unifyEndings_append_return u (.inr rfl),
        unifyEndings_append_return u (.inl rfl),
        (IsTerminated.of_endsLine (endsLine_concat _ _)).terminated_eq]
    · have hhead : [c].head? ≠ some '\n' := fun heq => hn (Option.some.inj heq)
      have hlast : unifyEndings (u ++ [c]) = unifyEndings u ++ [c] := by
        rw [unifyEndings_append_of_apart fun _ => hhead, unifyEndings_cons hr]
        rfl
      have hopen : ¬ (unifyEndings (u ++ [c])).IsTerminated := by
        rw [hlast]
        rintro (hnil | hends)
        · exact List.append_ne_nil_of_right_ne_nil _ (List.cons_ne_nil _ _) hnil
        · rw [endsLine_concat, beq_iff_eq] at hends
          exact hn hends
      rw [terminated_of_not_isTerminated hopen, unifyEndings_append_of_apart]
      · rfl
      · intro hreturn
        rw [List.getLast?_concat] at hreturn
        exact absurd (Option.some.inj hreturn) hr

end Emend.Text
