import Emend.Text.Blank
import Emend.Text.Indent
import Emend.Text.Word

/-!
# Wrapped edit texts

An edit text written by a language model may come with sections of thought before it and inside a
fence. `unwrap` takes both away: first every thought, from its opening tag to the first closing tag
after it with the line feed there, then a fence if it encloses all of the text and no other fence
stands inside it.
-/

namespace Emend.Wrapping

/-- The tag before a thought. -/
def openTag : Text := "<think>".toList

/-- The tag after a thought. -/
def closeTag : Text := "</think>".toList

/-- The three characters of a fence. -/
def fence : Text := ['\x60', '\x60', '\x60']

/-- A text without the line feed it starts with, if it starts with one. -/
def dropBreak : Text → Text
  | '\n' :: t => t
  | t => t

/-- What follows the thought that a text starts with. -/
def afterThought? (t : Text) : Option Text :=
  match Text.after openTag t with
  | some rest => (Text.afterFirst closeTag rest).map dropBreak
  | none => none

theorem dropBreak_length_le (t : Text) : (dropBreak t).length ≤ t.length := by
  unfold dropBreak
  split <;> simp

/-- A thought is not empty, so that what follows it is shorter. -/
theorem afterThought?_length_lt {t rest : Text} (h : afterThought? t = some rest) :
    rest.length < t.length := by
  unfold afterThought? at h
  split at h
  · next mid hm =>
    obtain ⟨after, ha, rfl⟩ := Option.map_eq_some_iff.mp h
    have h1 := Text.after_eq_some_iff.mp hm
    obtain ⟨front, h2⟩ := Text.eq_append_of_afterFirst ha
    have h3 := dropBreak_length_le after
    have h4 : 0 < openTag.length := by decide
    rw [h1, h2]
    simp only [List.length_append]
    omega
  · cases h

/-- A text without its thoughts. -/
def withoutThoughts (t : Text) : Text :=
  match t with
  | [] => []
  | c :: r =>
    match _h : afterThought? (c :: r) with
    | some rest => withoutThoughts rest
    | none => c :: withoutThoughts r
termination_by t.length
decreasing_by
  · exact afterThought?_length_lt _h
  · simp

/-- What follows the opening line of a fence: spaces of any kind, the fence, an info string of word
characters and hyphens, and spaces and tabs to the end of the line. -/
def afterOpening? (t : Text) : Option Text :=
  match Text.after fence t.stripStart with
  | some rest =>
    match (rest.dropWhile fun c => Text.isWordChar c || c == '-').dropWhile Text.isIndent with
    | '\n' :: body => some body
    | _ => none
  | none => none

/-- Whether a text is the closing line of a fence with nothing but spaces after it. -/
def isClosing (t : Text) : Bool :=
  match Text.after fence (t.dropWhile Text.isIndent) with
  | some rest => rest.isBlank
  | none => false

/-- The text before the line feed after which the closing line of a fence stands. -/
def beforeClosing? : Text → Option Text
  | [] => none
  | c :: t => if c == '\n' && isClosing t then some [] else (beforeClosing? t).map (c :: ·)

/-- The text inside a fence that encloses all of a text, with no other fence in it. -/
def insideFence? (t : Text) : Option Text :=
  match (afterOpening? t).bind beforeClosing? with
  | some body => if Text.occursIn fence body then none else some body
  | none => none

/-- A text without its thoughts and without the fence around the rest. -/
def unwrap (t : Text) : Text :=
  let kept := withoutThoughts t
  match insideFence? kept with
  | some body => body ++ ['\n']
  | none => kept

end Emend.Wrapping
