import Emend.Proofs.HunkText

/-!
# Sections of a diff

A header ends the section of a diff before it: one of a hunk, of a pair of files, or the name of an
old file with that of a new one right after it (`DiffLine.isHeader`). The reader of a diff meets the
lines of a section as body lines, one for each line (`DiffLine.bodies_ofLines`), and it looks ahead
for a change in exactly these lines (`DiffLine.changesFollow_ofLines_iff`). A line that names no
file stands for itself among the lines of a diff, so that the diff can be cut there
(`DiffLine.ofLines_append_cons`).
-/

namespace Emend

/-- The change that a line of a diff says: an added or a removed line, without its mark. -/
def HunkLine.change? : Text → Option HunkLine
  | '+' :: text => some ⟨.add, text⟩
  | '-' :: text => some ⟨.remove, text⟩
  | _ => none

/-- A line says a change if it is marked as one. -/
theorem HunkLine.isSome_change?_iff {line : Text} :
    (change? line).isSome = true ↔ line.head? = some '+' ∨ line.head? = some '-' := by
  fun_cases change? line with
  | case1 text => simp
  | case2 text => simp
  | case3 line hadd hremove =>
    cases line with
    | nil => simp
    | cons c text =>
      have hplus : c ≠ '+' := fun hc => hadd text (by rw [hc])
      have hminus : c ≠ '-' := fun hc => hremove text (by rw [hc])
      simp [hplus, hminus]

namespace DiffLine

/-- Whether a line is a header, given the lines after it. -/
def isHeader (line : Text) (rest : List Text) : Bool :=
  Text.startsWith hunkWord line || Text.startsWith pairWord line ||
    rest.head?.any (namesFiles line)

/-- The lines before the first header. -/
def untilHeader : List Text → List Text
  | [] => []
  | line :: rest => if isHeader line rest then [] else line :: untilHeader rest

/-- The lines before the first header, as a reader meets them. -/
def bodies : List DiffLine → List Text
  | .body line :: rest => line :: bodies rest
  | _ => []

/-- Whether what stands next is the header of a hunk. -/
def isHunk : DiffLine → Bool
  | .hunk _ => true
  | _ => false

/-! ## Lines on their own -/

variable {line : Text}

/-- A line that does not start like a header is a body line. -/
theorem ofLine_of_not (hhunk : Text.startsWith hunkWord line = false)
    (hpair : Text.startsWith pairWord line = false) : ofLine line = body line := by
  rw [ofLine, hhunk, hpair]
  rfl

/-- A line that starts like a header begins no section of body lines. -/
theorem bodies_ofLine_cons (h : Text.startsWith hunkWord line = true ∨
    Text.startsWith pairWord line = true) (rest : List DiffLine) :
    bodies (ofLine line :: rest) = [] := by
  unfold ofLine
  split
  · rfl
  · next hhunk =>
    rw [if_pos (h.resolve_left hhunk)]
    rfl

/-- A reader meets the lines before the first header as body lines. -/
theorem bodies_ofLines (ls : List Text) : bodies (ofLines ls) = untilHeader ls := by
  -- A line that is no header on its own is met as a body line.
  have hcons : ∀ (line : Text) (rest : List Text) (tail : List DiffLine),
      isHeader line rest =
        (Text.startsWith hunkWord line || Text.startsWith pairWord line) →
      bodies tail = untilHeader rest →
      bodies (ofLine line :: tail) = untilHeader (line :: rest) := by
    intro line rest tail hheader htail
    rw [untilHeader, hheader]
    split
    · next h => exact bodies_ofLine_cons (Bool.or_eq_true_iff.mp h) tail
    · next h =>
      rw [Bool.not_eq_true, Bool.or_eq_false_iff] at h
      rw [ofLine_of_not h.1 h.2, bodies, htail]
  fun_induction ofLines ls with
  | case1 => rfl
  | case2 line => exact hcons line [] [] (Bool.or_false _) rfl
  | case3 line next rest hnames ih =>
    have hheader : isHeader line (next :: rest) = true := by
      rw [isHeader, List.head?_cons, Option.any_some, hnames, Bool.or_true]
    rw [untilHeader, if_pos hheader]
    rfl
  | case4 line next rest hnames ih =>
    refine hcons line (next :: rest) _ ?_ ih
    rw [isHeader, List.head?_cons, Option.any_some, Bool.eq_false_iff.mpr hnames, Bool.or_false]

/-- A change follows if one of the next body lines says one. -/
theorem changesFollow_iff (ls : List DiffLine) :
    changesFollow ls = true ↔ ∃ line ∈ bodies ls, (HunkLine.change? line).isSome = true := by
  fun_induction changesFollow ls with
  | case1 text rest => exact iff_of_true rfl ⟨_, List.mem_cons_self, rfl⟩
  | case2 text rest => exact iff_of_true rfl ⟨_, List.mem_cons_self, rfl⟩
  | case3 line rest hadd hremove ih =>
    have hnone : ¬(HunkLine.change? line).isSome = true := by
      fun_cases HunkLine.change? line with
      | case1 text => exact absurd rfl (hadd text)
      | case2 text => exact absurd rfl (hremove text)
      | case3 => exact Bool.false_ne_true
    rw [ih, bodies, List.exists_mem_cons_iff, or_iff_right hnone]
  | case4 ls _ _ hbody =>
    have hnil : bodies ls = [] := by
      fun_cases bodies ls with
      | case1 line rest => exact absurd rfl (hbody line rest)
      | case2 => rfl
    rw [hnil]
    exact iff_of_false Bool.false_ne_true fun ⟨_, hline, _⟩ => List.not_mem_nil hline

/-- A change follows some lines if one of those before the next header says one. -/
theorem changesFollow_ofLines_iff (ls : List Text) : changesFollow (ofLines ls) = true ↔
    ∃ line ∈ untilHeader ls, line.head? = some '+' ∨ line.head? = some '-' := by
  rw [changesFollow_iff, bodies_ofLines]
  simp only [HunkLine.isSome_change?_iff]

/-- A line that names no file stands for itself between the lines before and after it. -/
theorem ofLines_append_cons {line : Text} (hold : Text.startsWith oldWord line = false)
    (hnew : Text.startsWith newWord line = false) (front back : List Text) :
    ofLines (front ++ line :: back) = ofLines front ++ ofLine line :: ofLines back := by
  have hfirst : ofLines (line :: back) = ofLine line :: ofLines back := by
    cases back with
    | nil => rfl
    | cons next back =>
      have hnames : ¬namesFiles line next = true := by
        rw [namesFiles, hold]
        exact Bool.false_ne_true
      rw [ofLines, if_neg hnames]
  fun_induction ofLines front with
  | case1 => exact hfirst
  | case2 other =>
    have hnames : ¬namesFiles other line = true := by
      rw [namesFiles, hnew, Bool.and_false]
      exact Bool.false_ne_true
    rw [List.singleton_append, ofLines, if_neg hnames, hfirst]
    rfl
  | case3 first second rest hnames ih =>
    rw [List.cons_append, List.cons_append, ofLines, if_pos hnames, ih]
    rfl
  | case4 first second rest hnames ih =>
    rw [List.cons_append, List.cons_append, ofLines, if_neg hnames, ← List.cons_append, ih]
    rfl

end DiffLine

end Emend
