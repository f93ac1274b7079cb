import Emend.Proofs.BatchRun
import Emend.Proofs.BlockRoundTrip
import Emend.Proofs.MarkerLines
import Emend.Proofs.Unwrapping

/-!
# Written blocks applied automatically

Blocks can be applied as they are, or as the edit text that they are written in, whose wrapping is
taken off and whose dialect is told first. The two agree (`applyAuto_written`): a written text
starts with a marker, so that no fence encloses it, and its markers begin lines, so that it is
detected as one of blocks (`detect_writeAll`). What is left is to read the blocks back.

Thoughts are taken off wherever they stand, within the texts of blocks too. So unwrapping leaves a
written text alone just if no closing tag comes after an opening one in it, and a replacement that
holds both tags is not applied as it is (`applyAuto_taggedReplacement`).
-/

namespace Emend

namespace EditBlock

/-- The edit text that blocks are written in. -/
def written (blocks : List EditBlock) : Text :=
  writeAll (blocks.map fun b => (b.search, b.replacement))

end EditBlock

/-! ## Detecting -/

namespace Dialect

/-- Written blocks are detected as an edit text of blocks. -/
theorem detect_writeAll {blocks : List (Text × Text)} (hne : blocks ≠ []) :
    detect (EditBlock.writeAll blocks) = .ok .blocks := by
  obtain ⟨b, blocks, rfl⟩ := List.exists_cons_of_ne_nil hne
  obtain ⟨search, replacement, rest, hrows⟩ : ∃ search replacement : Text, ∃ rest : List Text,
      (EditBlock.writeAll (b :: blocks)).unifyEndings.rows =
        Marker.startLine :: (search.terminated.rows ++ Marker.separatorLine ::
          (replacement.terminated.rows ++ Marker.finishLine :: rest)) := by
    rw [EditBlock.unifyEndings_writeAll, List.map_cons, EditBlock.writeAll, List.flatMap_cons,
      EditBlock.rows_write_append]
    exact ⟨_, _, _, rfl⟩
  rw [detect_eq_blocks_iff, hrows]
  constructor
  · exact ⟨[], Marker.startLine, _, rfl, by decide, .inl rfl⟩
  · refine ⟨Marker.startLine :: (search.terminated.rows ++ Marker.separatorLine ::
      replacement.terminated.rows), Marker.finishLine, rest, ?_, by decide, ?_⟩
    · simp only [List.append_assoc, List.cons_append]
    · -- Markers and sections are terminated, and so are they together.
      rw [List.flatten_cons, List.flatten_append, List.flatten_cons, Text.flatten_rows,
        Text.flatten_rows]
      exact Marker.isTerminated_startLine.append (search.isTerminated_terminated.append
        (Marker.isTerminated_separatorLine.append replacement.isTerminated_terminated))

end Dialect

/-! ## Unwrapping -/

namespace Wrapping

/-- Unwrapping makes a text no longer than it is without its thoughts. -/
theorem length_unwrap_le (t : Text) : (unwrap t).length ≤ (withoutThoughts t).length := by
  unfold unwrap
  dsimp only
  split
  · next body hbody =>
    rw [List.length_append, List.length_singleton]
    exact length_lt_of_insideFence? hbody
  · exact Nat.le_refl _

/-- A text that starts with no fence stays as it is just if it holds no thought. -/
theorem unwrap_eq_self_iff {t : Text} (h : ¬ fence <+: t.stripStart) :
    unwrap t = t ↔ ¬ HoldsThought t := by
  constructor
  · intro heq hholds
    have hne : withoutThoughts t ≠ t := fun h => (withoutThoughts_eq_self_iff t).mp h hholds
    have hle := length_unwrap_le t
    rw [heq] at hle
    exact hne ((withoutThoughts_sublist t).eq_of_length_le hle)
  · intro hholds
    rw [unwrap, (withoutThoughts_eq_self_iff t).mpr hholds, insideFence?_of_not_prefix h]

/-- Written blocks start with no fence. -/
theorem not_prefix_writeAll {blocks : List (Text × Text)} (hne : blocks ≠ []) :
    ¬ fence <+: (EditBlock.writeAll blocks).stripStart := by
  obtain ⟨b, rest, rfl⟩ := List.exists_cons_of_ne_nil hne
  obtain ⟨tail, htail⟩ : ∃ tail, EditBlock.writeAll (b :: rest) = '<' :: tail := ⟨_, rfl⟩
  have hstart : Text.stripStart ('<' :: tail) = '<' :: tail :=
    List.dropWhile_cons_of_neg (by decide)
  rw [htail, hstart]
  intro hstarts
  exact absurd (List.cons_prefix_cons.mp hstarts).1 (by decide)

end Wrapping

/-! ## Applying -/

namespace Edit

open EditBlock (written)

/-- No blocks are read from an edit text without one. -/
theorem ne_nil_of_read {blocks : List EditBlock}
    (hread : (EditBlock.read (written blocks)).value = .ok blocks) : blocks ≠ [] := by
  rintro rfl
  cases hread

/-- An edit text of blocks is applied as its blocks are. -/
theorem applyBlocks_of_read {edit : Text} {blocks : List EditBlock}
    (hread : (EditBlock.read edit).value = .ok blocks) (content : Text)
    (options : Except OptionError Options) :
    (applyBlocks content edit options).value =
      (withOptions options fun options => EditBlock.applyAll options content blocks).value := by
  rw [applyBlocks, Traced.value_bind, hread]

/-- Settings are refused, or their options are those that the blocks are applied with. -/
theorem applyWith_blocks_of_read {edit : Text} {blocks : List EditBlock}
    (hread : (EditBlock.read edit).value = .ok blocks) (content : Text) (settings : Value) :
    (applyWith .blocks content edit settings).value =
      (withOptions (Options.ofValue settings) fun options =>
        EditBlock.applyAll options content blocks).value := by
  unfold applyWith Options.ofValue
  cases Settings.ofValue settings with
  | error e => rfl
  | ok given =>
    dsimp only [Except.bind]
    cases given.options with
    | error e => rfl
    | ok options => exact applyBlocks_of_read hread content (.ok options)

/-- Written blocks that are read back as they are stay so when they are unwrapped just if their edit
text holds no thought, and then applying it automatically is applying the blocks, whatever the
document and the settings are. -/
theorem applyAuto_written {blocks : List EditBlock}
    (hread : (EditBlock.read (written blocks)).value = .ok blocks) :
    (Wrapping.unwrap (written blocks) = written blocks ↔
      ¬ Wrapping.HoldsThought (written blocks)) ∧
    (¬ Wrapping.HoldsThought (written blocks) → ∀ content settings,
      (applyAuto content (written blocks) settings).value =
        (withOptions (Options.ofValue settings) fun options =>
          EditBlock.applyAll options content blocks).value) := by
  have hne : (blocks.map fun b => (b.search, b.replacement)) ≠ [] :=
    mt List.map_eq_nil_iff.mp (ne_nil_of_read hread)
  have hunwrap : Wrapping.unwrap (written blocks) = written blocks ↔
      ¬ Wrapping.HoldsThought (written blocks) :=
    Wrapping.unwrap_eq_self_iff (Wrapping.not_prefix_writeAll hne)
  refine ⟨hunwrap, fun hholds content settings => ?_⟩
  have hdetect : Dialect.detect (written blocks) = .ok .blocks := Dialect.detect_writeAll hne
  rw [applyAuto, hunwrap.mpr hholds, hdetect]
  exact applyWith_blocks_of_read hread content settings

/-- A block whose texts look like wrapping and like a diff. -/
def wrappedLook : List EditBlock :=
  [⟨0, "```\n</think>\n".toList, "<think>\n--- a\n+++ b\n```\n".toList⟩]

/-- The block is applied as it is. -/
theorem applyAuto_wrappedLook :
    ((EditBlock.read (written wrappedLook)).value = .ok wrappedLook ∧
      ¬ Wrapping.HoldsThought (written wrappedLook)) ∧
    (applyAuto "```\n</think>\n".toList (written wrappedLook) .null).value =
      (withOptions (Options.ofValue .null) fun options =>
        EditBlock.applyAll options "```\n</think>\n".toList wrappedLook).value := by
  have hread : (EditBlock.read (written wrappedLook)).value = .ok wrappedLook := rfl
  have hholds : ¬ Wrapping.HoldsThought (written wrappedLook) := by decide
  exact ⟨⟨hread, hholds⟩, (applyAuto_written hread).2 hholds _ _⟩

/-- A block whose replacement holds both tags. -/
def taggedReplacement : List EditBlock :=
  [⟨0, "a\n".toList, "<think>b</think>c\n".toList⟩]

/-- The thought between the tags is taken off the replacement. -/
theorem unwrap_taggedReplacement :
    Wrapping.unwrap (written taggedReplacement) =
      EditBlock.writeAll [("a\n".toList, "c\n".toList)] := by
  obtain ⟨front, hfront⟩ : ∃ front, front = "<<<<<<< SEARCH\na\n=======\n".toList := ⟨_, rfl⟩
  obtain ⟨rest, hrest⟩ : ∃ rest, rest = "c\n>>>>>>> REPLACE\n".toList := ⟨_, rfl⟩
  have hwritten : written taggedReplacement =
      front ++ (Wrapping.openTag ++ ('b' :: Wrapping.closeTag ++ rest)) := by
    rw [hfront, hrest]
    rfl
  have hthought : Wrapping.afterThought? (Wrapping.openTag ++ ('b' :: Wrapping.closeTag ++ rest)) =
      some rest := by
    rw [hrest]
    decide
  have hkept : Wrapping.withoutThoughts (written taggedReplacement) = front ++ rest := by
    have hopen : ¬ Wrapping.openTag <:+: front := by
      rw [hfront]
      decide
    have hplain : ¬ Wrapping.openTag <:+: rest := by
      rw [hrest]
      decide
    rw [hwritten, Wrapping.withoutThoughts_append_openTag hopen,
      Wrapping.withoutThoughts_of_some hthought, Wrapping.withoutThoughts_of_not_infix hplain]
  have hfence : Wrapping.insideFence? (front ++ rest) = none := by
    rw [hfront, hrest]
    decide
  rw [Wrapping.unwrap, hkept, hfence, hfront, hrest]
  rfl

/-- The block is read back, but when its edit text is applied automatically the replacement loses
the tags and what is between them. -/
theorem applyAuto_taggedReplacement :
    (EditBlock.read (written taggedReplacement)).value = .ok taggedReplacement ∧
    (withOptions (Options.ofValue .null) fun options =>
        EditBlock.applyAll options "a\n".toList taggedReplacement).value.map Outcome.content =
      .ok "<think>b</think>c\n".toList ∧
    (applyAuto "a\n".toList (written taggedReplacement) .null).value.map Outcome.content =
      .ok "c\n".toList := by
  refine ⟨rfl, rfl, ?_⟩
  rw [applyAuto, unwrap_taggedReplacement]
  rfl

end Edit

end Emend
