import Emend.Text.Basic
import Emend.Number.Binary64

/-!
# Similarity of two texts

Two texts are compared by the blocks of characters that they have in common. The longest common
block is taken first, of several the one that starts earliest in the first text and then earliest
in the second; what stands to the left of it in both texts is compared in the same way, and so is
what stands to the right. `matched` counts the characters of all these blocks, and `ratio` is twice
that count over the length of both texts, rounded to the binary64 format. The measure depends on
the order of the two texts.

Two bounds on `matched` are quicker to find, the shorter length and the count of characters that
the texts share as multisets, and a ratio made from one of them is an upper bound on `ratio`.
-/

namespace Emend.Similarity

/-- A block of characters that two texts have in common: where it starts in each, and its size. -/
structure Block where
  /-- Where the block starts in the first text. -/
  left : Nat
  /-- Where the block starts in the second text. -/
  right : Nat
  /-- How many characters the block has. -/
  size : Nat
  deriving DecidableEq, Repr

/-- The first longest among `best` and the blocks that start at place `i` of the first text, where
it goes on with `a`, and at place `j` or later of the second, where it goes on with `b`. -/
def bestRight (a : Text) (i : Nat) : Nat → Text → Block → Block
  | _, [], best => best
  | j, c :: b, best =>
    let size := (Text.shared a (c :: b)).length
    bestRight a i (j + 1) b (if best.size < size then ⟨i, j, size⟩ else best)

/-- The first longest among `best` and the blocks that start at place `i` or later of the first
text, where it goes on with `a`, and anywhere in the second text `b`. -/
def bestLeft (b : Text) : Nat → Text → Block → Block
  | _, [], best => best
  | i, c :: a, best => bestLeft b (i + 1) a (bestRight (c :: a) i 0 b best)

/-- The longest block that two texts have in common, the first of several. It is empty exactly when
they share no character. -/
def longest (a b : Text) : Block := bestLeft b 0 a ⟨0, 0, 0⟩

theorem shared_length_le (a b : Text) : (Text.shared a b).length ≤ a.length := by
  fun_induction Text.shared a b with
  | case1 a s t ih => simpa using ih
  | case2 => simp
  | case3 => simp

theorem bestRight_stop_le {a : Text} {i j : Nat} {b : Text} {best : Block}
    (h : best.left + best.size ≤ i + a.length) :
    (bestRight a i j b best).left + (bestRight a i j b best).size ≤ i + a.length := by
  induction b generalizing j best with
  | nil => exact h
  | cons c b ih =>
    simp only [bestRight]
    apply ih
    have := shared_length_le a (c :: b)
    split <;> simp_all

theorem bestLeft_stop_le {b : Text} {i : Nat} {a : Text} {best : Block}
    (h : best.left + best.size ≤ i + a.length) :
    (bestLeft b i a best).left + (bestLeft b i a best).size ≤ i + a.length := by
  induction a generalizing i best with
  | nil => exact h
  | cons c a ih =>
    simp only [bestLeft]
    have bound := bestRight_stop_le (j := 0) (b := b) h
    have := @ih (i + 1) (bestRight (c :: a) i 0 b best) (by simp at bound ⊢; omega)
    simp at this ⊢
    omega

/-- The longest block ends within the first text. -/
theorem longest_stop_le (a b : Text) : (longest a b).left + (longest a b).size ≤ a.length := by
  have := @bestLeft_stop_le b 0 a ⟨0, 0, 0⟩ (by simp)
  simpa [longest] using this

/-- How many characters the common blocks of two texts hold together. -/
def matched (a b : Text) : Nat :=
  match _h : longest a b with
  | ⟨i, j, size⟩ =>
    if size = 0 then 0
    else matched (a.take i) (b.take j) + size + matched (a.drop (i + size)) (b.drop (j + size))
termination_by a.length
decreasing_by
  all_goals
    have := longest_stop_le a b
    simp only [_h, List.length_take, List.length_drop] at this ⊢
    omega

/-- How many characters two texts share, each counted as often as both have it. -/
def sharedCount (a b : Text) : Nat :=
  a.eraseDups.foldr (fun c n => min (a.count c) (b.count c) + n) 0

/-- The ratio that `n` matched characters make of two texts of `total` characters together; two
empty texts are equal. -/
def score (n total : Nat) : Rat := if total = 0 then 1 else nearest (2 * n / total)

/-- How similar two texts are, from zero to one. -/
def ratio (a b : Text) : Rat := score (matched a b) (a.length + b.length)

/-- An upper bound on the ratio from the lengths of the texts. -/
def lengthBound (a b : Text) : Rat := score (min a.length b.length) (a.length + b.length)

/-- An upper bound on the ratio from the characters of the texts in any order. -/
def countBound (a b : Text) : Rat := score (sharedCount a b) (a.length + b.length)

end Emend.Similarity
