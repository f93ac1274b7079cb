/-!
# Texts

A text is the list of its characters, and every position, length and limit of the library counts
characters. This module holds the four ways in which the library takes a text apart: at the
characters that satisfy a predicate (`cut` drops them, `cutAfter` keeps each at the end of its
piece), at a word it starts with (`after`), and at the first occurrence of a word (`afterFirst`).
`join` puts pieces back together, and `join_cut_eq` says that nothing is lost when the pieces were
cut at one character.
-/

namespace Emend

/-- A text: its characters, in order. -/
abbrev Text := List Char

namespace Text

/-- Puts a character in front of the first piece, which it starts when there is none. -/
def pushFront (c : Char) : List Text → List Text
  | [] => [[c]]
  | p :: ps => (c :: p) :: ps

/-- The pieces between the characters that satisfy `p`, without those characters: always one piece
more than there are such characters. -/
def cut (p : Char → Bool) : Text → List Text
  | [] => [[]]
  | c :: r => if p c then [] :: cut p r else pushFront c (cut p r)

/-- The pieces that end with a character that satisfies `p`, and what is left after the last of
them if that is not empty. -/
def cutAfter (p : Char → Bool) : Text → List Text
  | [] => []
  | c :: r => if p c then [c] :: cutAfter p r else pushFront c (cutAfter p r)

/-- The pieces one after another, with `sep` between each two. -/
def join (sep : Text) : List Text → Text
  | [] => []
  | [p] => p
  | p :: q :: ps => p ++ sep ++ join sep (q :: ps)

/-- What follows the word in a text that starts with it. -/
def after : Text → Text → Option Text
  | [], t => some t
  | _ :: _, [] => none
  | w :: ws, c :: t => if w = c then after ws t else none

/-- What follows the first occurrence of the word in a text. -/
def afterFirst (word : Text) : Text → Option Text
  | [] => after word []
  | c :: t =>
    match after word (c :: t) with
    | some rest => some rest
    | none => afterFirst word t

/-- Whether a text starts with the word. -/
def startsWith (word t : Text) : Bool := (after word t).isSome

/-- Whether the word occurs in a text. -/
def occursIn (word t : Text) : Bool := (afterFirst word t).isSome

/-- The longest text that both texts start with. -/
def shared : Text → Text → Text
  | a :: s, b :: t => if a = b then a :: shared s t else []
  | _, _ => []

/-- Whether the last character of a text is a line feed. -/
def endsLine (t : Text) : Bool := t.getLast? == some '\n'

/-- A text is the word and what follows it, exactly when it starts with the word. -/
theorem after_eq_some_iff {word t rest : Text} : after word t = some rest ↔ t = word ++ rest := by
  induction word generalizing t with
  | nil => simp [after, eq_comm]
  | cons w ws ih =>
    cases t with
    | nil => simp [after]
    | cons c t =>
      by_cases h : w = c
      · subst h; simp [after, ih]
      · simp [after, h, Ne.symm h]

/-- What follows the first occurrence of a word comes after some text and the word. -/
theorem eq_append_of_afterFirst {word t rest : Text} (h : afterFirst word t = some rest) :
    ∃ front, t = front ++ word ++ rest := by
  induction t with
  | nil => exact ⟨[], by simpa [afterFirst] using after_eq_some_iff.mp h⟩
  | cons c t ih =>
    simp only [afterFirst] at h
    split at h
    · next r hr =>
      cases h
      exact ⟨[], by simpa using after_eq_some_iff.mp hr⟩
    · obtain ⟨front, hf⟩ := ih h
      exact ⟨c :: front, by simp [hf]⟩

theorem cut_ne_nil (p : Char → Bool) (t : Text) : cut p t ≠ [] := by
  cases t with
  | nil => simp [cut]
  | cons c r =>
    simp only [cut]
    split
    · simp
    · cases cut p r <;> simp [pushFront]

/-- Joining the pieces between the occurrences of one character gives back the text. -/
theorem join_cut_eq (sep : Char) (t : Text) : join [sep] (cut (· == sep) t) = t := by
  induction t with
  | nil => rfl
  | cons c r ih =>
    obtain ⟨p, ps, hp⟩ := List.exists_cons_of_ne_nil (cut_ne_nil (· == sep) r)
    rw [hp] at ih
    by_cases h : c = sep
    · subst h
      simp [cut, hp, join, ih]
    · have hc : cut (· == sep) (c :: r) = (c :: p) :: ps := by simp [cut, h, hp, pushFront]
      rw [hc, ← ih]
      cases ps <;> simp [join]

end Text

end Emend
