import Emend.Match.Exact
import Emend.Proofs.DocumentEndings
import Emend.Proofs.Occurrences

/-!
# Styles of line endings

Unifying the endings of a text and writing them again in the style that it uses most gives the text
back just if it has one style. If there is one, the breaks are written one by one as they were
(`Text.writeEndings_unifyEndings`); and if the text comes back, then it was written in one.

The line breaks are read from left to right, with a carriage return and the line feed after it as
one (`Text.breaks_induction`). They can be counted and exchanged without that reading as well: each
occurrence of both characters is a break of that style, and the line feeds and carriage returns that
are left are those of the other two (`Text.length_placesFrom_crlf`, `Text.count_lineFeed`,
`Text.count_return`); the endings are unified by two replacements, first of both characters together
and then of the carriage returns that are left (`Text.unifyEndings_eq_replaced`).
-/

namespace Emend

/-- The place of a style where several are used as often as each other. -/
def LineEnding.rank : LineEnding → Nat
  | .lf => 0
  | .crlf => 1
  | .cr => 2

namespace Text

variable {c : Char} {t : Text} {e : LineEnding}

/-- A text is read break by break: it is empty, or starts with an ending that what follows does not
complete, or with a character that is no line break. -/
@[elab_as_elim]
theorem breaks_induction {motive : Text → Prop} (nil : motive [])
    (ending : ∀ (e : LineEnding) (t : Text), (e = .cr → t.head? ≠ some '\n') → motive t →
      motive (e.text ++ t))
    (char : ∀ (c : Char) (t : Text), c ≠ '\n' → c ≠ '\r' → motive t → motive (c :: t))
    (t : Text) : motive t := by
  induction t using breaks.induct with
  | case1 => exact nil
  | case2 r ih => exact ending .crlf r nofun ih
  | case3 r _ ih => exact ending .lf r nofun ih
  | case4 r hnext _ ih =>
    refine ending .cr r (fun _ hhead => ?_) ih
    obtain ⟨r', rfl⟩ := List.head?_eq_some_iff.mp hhead
    exact hnext r' rfl rfl
  | case5 c r _ hn hr ih => exact char c r hn hr ih

/-! ## The style that is used most -/

/-- No style has more line breaks than the dominant one, and of those that have as many it comes
first. -/
theorem count_lt_or_rank_le (t : Text) (e : LineEnding) :
    (breaks t).count e < (breaks t).count (dominantEnding t) ∨
      (breaks t).count e = (breaks t).count (dominantEnding t) ∧
        (dominantEnding t).rank ≤ e.rank := by
  unfold dominantEnding LineEnding.rank
  dsimp only
  split_ifs <;> cases e <;> dsimp only <;> omega

/-- If there is a line break, then there is one of the dominant style. -/
theorem dominantEnding_mem_breaks (he : e ∈ breaks t) : dominantEnding t ∈ breaks t := by
  have hpos : 0 < (breaks t).count e := List.count_pos_iff.mpr he
  refine List.count_pos_iff.mp ?_
  rcases count_lt_or_rank_le t e with hlt | ⟨heq, -⟩ <;> omega

/-! ## Writing endings again -/

/-- Line breaks of one style are written again as they were. -/
theorem writeEndings_unifyEndings (h : ∀ b ∈ breaks t, b = e) :
    writeEndings (unifyEndings t) e.text = t := by
  induction t using breaks_induction with
  | nil => rfl
  | ending e' t hnext ih =>
    rw [breaks_ending e' hnext, List.forall_mem_cons] at h
    obtain ⟨rfl, h⟩ := h
    rw [unifyEndings_ending e' hnext, writeEndings_cons_feed, ih h]
  | char c t hn hr ih =>
    rw [breaks_cons hn hr] at h
    rw [unifyEndings_cons hr, writeEndings_cons hn, ih h]

/-- A text is written again in its dominant style as it was just if it has one style. -/
theorem writeEndings_dominantEnding_iff (t : Text) :
    writeEndings (unifyEndings t) (dominantEnding t).text = t ↔
      ∀ a ∈ breaks t, ∀ b ∈ breaks t, a = b := by
  constructor
  · intro h a ha b hb
    -- All breaks that were written are of the dominant style.
    have hwritten := breaks_writeEndings (cr_notMem_unifyEndings t) (dominantEnding t)
    rw [h] at hwritten
    rw [hwritten a ha, hwritten b hb]
  · exact fun h => writeEndings_unifyEndings fun b hb => h b hb _ (dominantEnding_mem_breaks hb)

/-! ## Line breaks as occurrences -/

/-- A text with `new` in place of the occurrences of a word, which are read from left to right and
do not overlap. The first `skip` characters belong to the occurrence before. -/
def replaceFrom (word new : Text) : Nat → Text → Text
  | _, [] => []
  | skip + 1, _ :: t => replaceFrom word new skip t
  | 0, c :: t =>
    if startsWith word (c :: t) then new ++ replaceFrom word new (word.length - 1) t
    else c :: replaceFrom word new 0 t

/-- A text with `new` in place of the occurrences of a word that is not empty. -/
def replaced (word new t : Text) : Text := replaceFrom word new 0 t

/-- A text does not start with both characters if it starts with another one than the first or goes
on with another one than the second. -/
theorem not_startsWith_crlf (h : c = '\r' → t.head? ≠ some '\n') :
    ¬ startsWith ['\r', '\n'] (c :: t) = true := by
  rw [startsWith_iff, List.cons_prefix_cons]
  rintro ⟨rfl, rest, rfl⟩
  exact h rfl rfl

/-- Occurrences of a character are replaced one by one. -/
theorem replaced_singleton (c : Char) (new t : Text) :
    replaced [c] new t = t.flatMap fun d => if d = c then new else [d] := by
  unfold replaced
  induction t with
  | nil => rfl
  | cons d t ih =>
    rw [replaceFrom, List.flatMap_cons, ← ih]
    have hstarts : startsWith [c] (d :: t) = true ↔ d = c := by
      rw [startsWith_iff, List.cons_prefix_cons, and_iff_left List.nil_prefix, eq_comm]
    rw [if_congr hstarts rfl rfl]
    split <;> rfl

/-- Endings are written by replacing the line feeds. -/
theorem writeEndings_eq_replaced (t ending : Text) :
    writeEndings t ending = replaced ['\n'] ending t := (replaced_singleton '\n' ending t).symm

/-- A character that no occurrence of the word starts with is kept. -/
theorem replaced_cons {word : Text} (h : ¬ startsWith word (c :: t) = true) (new : Text) :
    replaced word new (c :: t) = c :: replaced word new t :=
  if_neg h

/-- Both characters together are replaced where they are a line break. -/
theorem replaced_crlf_ending (new : Text) (e : LineEnding)
    (hnext : e = .cr → t.head? ≠ some '\n') :
    replaced ['\r', '\n'] new (e.text ++ t) =
      (if e = .crlf then new else e.text) ++ replaced ['\r', '\n'] new t := by
  cases e with
  | lf => exact replaced_cons (not_startsWith_crlf fun h => absurd h (by decide)) new
  | crlf => rfl
  | cr => exact replaced_cons (not_startsWith_crlf fun _ => hnext rfl) new

/-- Endings are unified by replacing both characters together first, and then the carriage returns
that are left. -/
theorem unifyEndings_eq_replaced (t : Text) :
    unifyEndings t = replaced ['\r'] ['\n'] (replaced ['\r', '\n'] ['\n'] t) := by
  induction t using breaks_induction with
  | nil => rfl
  | ending e t hnext ih =>
    rw [unifyEndings_ending e hnext, ih, replaced_crlf_ending _ e hnext, replaced_singleton,
      replaced_singleton, List.flatMap_append]
    cases e <;> rfl
  | char c t hn hr ih =>
    rw [unifyEndings_cons hr, ih, replaced_cons (not_startsWith_crlf fun h => absurd h hr),
      replaced_singleton, replaced_singleton, List.flatMap_cons, if_neg hr]
    rfl

/-! ## Line breaks as counts -/

/-- There are as many breaks of both characters together as occurrences of them. -/
theorem length_placesFrom_crlf (t : Text) (start : Nat) :
    (Match.placesFrom ['\r', '\n'] start t).length = (breaks t).count .crlf := by
  induction t using breaks_induction generalizing start with
  | nil => rfl
  | ending e t hnext ih =>
    rw [breaks_ending e hnext, List.count_cons]
    cases e with
    | lf => exact ih (start + 1)
    | crlf => exact congrArg Nat.succ (ih (start + 2))
    | cr =>
      show (Match.placesFrom ['\r', '\n'] start ('\r' :: t)).length = _
      rw [Match.placesFrom, if_neg (not_startsWith_crlf fun _ => hnext rfl), ih]
      rfl
  | char c t hn hr ih =>
    rw [Match.placesFrom, if_neg (not_startsWith_crlf fun h => absurd h hr), ih, breaks_cons hn hr]

/-- The line feeds of a text are those that are a break and those that end one. -/
theorem count_lineFeed (t : Text) :
    t.count '\n' = (breaks t).count .lf + (breaks t).count .crlf := by
  induction t using breaks_induction with
  | nil => rfl
  | ending e t hnext ih =>
    rw [breaks_ending e hnext, List.count_append, ih, List.count_cons, List.count_cons]
    cases e <;> simp [LineEnding.text] <;> omega
  | char c t hn hr ih => rw [breaks_cons hn hr, List.count_cons_of_ne hn, ih]

/-- The carriage returns of a text are those that are a break and those that start one. -/
theorem count_return (t : Text) :
    t.count '\r' = (breaks t).count .cr + (breaks t).count .crlf := by
  induction t using breaks_induction with
  | nil => rfl
  | ending e t hnext ih =>
    rw [breaks_ending e hnext, List.count_append, ih, List.count_cons, List.count_cons]
    cases e <;> simp [LineEnding.text] <;> omega
  | char c t hn hr ih => rw [breaks_cons hn hr, List.count_cons_of_ne hr, ih]

/-! ## The text that comes back -/

/-- **The line endings of a text come back just if they are of one style.** When the endings of a
text are unified and written again in its dominant style, the text is as it was if and only if all
its line breaks are of the same style. No style has more breaks than the dominant one, and of those
with as many it is the first. How many breaks there are of a style is what the occurrences of its
characters say: those of both together, and those of each that are no part of one. And endings are
unified and written by replacing occurrences from left to right. -/
theorem endings_comeBack_iff (t : Text) :
    (writeEndings (unifyEndings t) (dominantEnding t).text = t ↔
      ∀ a ∈ breaks t, ∀ b ∈ breaks t, a = b) ∧
    (∀ e, (breaks t).count e < (breaks t).count (dominantEnding t) ∨
      (breaks t).count e = (breaks t).count (dominantEnding t) ∧
        (dominantEnding t).rank ≤ e.rank) ∧
    ((breaks t).count .crlf = (Match.placesFrom ['\r', '\n'] 0 t).length ∧
      (breaks t).count .lf = t.count '\n' - (Match.placesFrom ['\r', '\n'] 0 t).length ∧
      (breaks t).count .cr = t.count '\r' - (Match.placesFrom ['\r', '\n'] 0 t).length) ∧
    unifyEndings t = replaced ['\r'] ['\n'] (replaced ['\r', '\n'] ['\n'] t) ∧
    ∀ s ending, writeEndings s ending = replaced ['\n'] ending s := by
  refine ⟨writeEndings_dominantEnding_iff t, count_lt_or_rank_le t, ?_, unifyEndings_eq_replaced t,
    writeEndings_eq_replaced⟩
  have hfeeds := count_lineFeed t
  have hreturns := count_return t
  rw [length_placesFrom_crlf]
  exact ⟨rfl, by omega, by omega⟩

end Text

end Emend
