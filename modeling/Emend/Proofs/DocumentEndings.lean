import Emend.Apply.Edit
import Emend.Proofs.BatchRun
import Emend.Proofs.DiffOrigin
import Emend.Proofs.Rows

/-!
# Line endings of a document

The line endings of a document do not matter to an edit. Units are applied to the document with
unified endings, and no unit brings a carriage return into it, as its own texts have unified
endings too. So the calls on a document and on the same one with unified endings have the same run,
and their outcomes differ in the document alone: the one is the other with each line feed written in
the style that the document uses most (`Outcome.Restores`), and no line break of another style is
left in it.
-/

namespace Emend

/-! ## Texts without carriage returns -/

namespace Text

variable {t : Text}

/-- A text without carriage returns is plain lines that line feeds end, and a plain rest. -/
theorem exists_eq_ended (h : '\r' ∉ t) :
    ∃ ls rest, (∀ l ∈ ls, IsPlain l) ∧ IsPlain rest ∧ t = ended ['\n'] ls ++ rest := by
  have hfeed : ∀ {s : Text}, (∀ x ∈ s, (x == '\n') = false) → '\n' ∉ s :=
    fun hs hmem => absurd (hs _ hmem) (by decide)
  induction t using pieces_induction (· == '\n') with
  | last t hlast => exact ⟨[], t, List.forall_mem_nil _, ⟨hfeed hlast, h⟩, rfl⟩
  | piece body c t hbody hc ih =>
    obtain rfl : c = '\n' := beq_iff_eq.mp hc
    rw [List.mem_append, List.mem_cons, not_or, not_or] at h
    obtain ⟨ls, rest, hls, hrest, rfl⟩ := ih h.2.2
    refine ⟨body :: ls, rest, List.forall_mem_cons.mpr ⟨⟨hfeed hbody, h.1⟩, hls⟩, hrest, ?_⟩
    rw [ended_cons_append]
    rfl

/-- A text without carriage returns has the style of the line feed. -/
theorem dominantEnding_of_notMem (h : '\r' ∉ t) : dominantEnding t = .lf := by
  obtain ⟨ls, rest, hls, hrest, rfl⟩ := exists_eq_ended h
  rw [← ite_self (c := ls.isEmpty) LineEnding.lf]
  exact dominantEnding_ended hls hrest .lf

/-- Each line break is of the style that was written over all line feeds, if there was no carriage
return. -/
theorem breaks_writeEndings (h : '\r' ∉ t) (e : LineEnding) :
    ∀ b ∈ breaks (writeEndings t e.text), b = e := by
  obtain ⟨ls, rest, hls, hrest, rfl⟩ := exists_eq_ended h
  rw [writeEndings_ended hls hrest, breaks_ended hls hrest]
  exact fun b hb => List.eq_of_mem_replicate hb

/-- Other line endings are unified to what they were written over. -/
theorem unifyEndings_writeEndings (h : '\r' ∉ t) (e : LineEnding) :
    (t.writeEndings e.text).unifyEndings = t := by
  obtain ⟨ls, rest, hls, hrest, rfl⟩ := exists_eq_ended h
  rw [writeEndings_ended hls hrest, unifyEndings_ended hls hrest]

/-- The style that was written over all line feeds shows, if there was one or it is that of the line
feed. -/
theorem dominantEnding_writeEndings (h : '\r' ∉ t) {e : LineEnding}
    (hshows : ¬ (writeEndings t e.text).IsPlain ∨ e = .lf) :
    (writeEndings t e.text).dominantEnding = e := by
  obtain ⟨ls, rest, hls, hrest, rfl⟩ := exists_eq_ended h
  rw [writeEndings_ended hls hrest] at hshows ⊢
  rw [dominantEnding_ended hls hrest]
  cases ls with
  | nil =>
    rcases hshows with hbreak | rfl
    · exact absurd hrest hbreak
    · rfl
  | cons l ls => rfl

/-- Line feeds are written as they are. -/
theorem writeEndings_lineFeed (t : Text) : writeEndings t ['\n'] = t := by
  have hchar : (fun c => if c = '\n' then ['\n'] else [c]) = fun c => [c] := by
    funext c
    split
    · next hc => rw [hc]
    · rfl
  rw [writeEndings, hchar]
  exact List.flatMap_singleton' t

end Text

/-! ## Outcomes -/

/-- How the outcome of a call on a document follows from that of the call on the same document with
unified endings. -/
structure Outcome.Restores (o plain : Outcome) (content : Text) : Prop where
  /-- All but the documents is the same. -/
  account : { o with content := plain.content } = plain
  /-- If a unit was applied, each line feed is written in the style that the document uses most. -/
  written : o.applied ≠ 0 → o.content = plain.content.writeEndings content.dominantEnding.text
  /-- Then no line break is of another style. -/
  uniform : o.applied ≠ 0 → ∀ e ∈ o.content.breaks, e = content.dominantEnding
  /-- If no unit was applied, the document is as it was. -/
  untouched : o.applied = 0 → o.content = content

namespace Batch

variable {υ σ : Type}

/-- The batch whose documents are written in a style over the line feeds of a text. -/
def writing (b : Batch υ σ) (raw : σ → Text) (ending : LineEnding) : Batch υ σ :=
  { b with render := fun s => (raw s).writeEndings ending.text }

/-- If no unit brings a carriage return into the text of a state, the outcome for a document follows
from that for the document with unified endings. -/
theorem apply_restores (b : Batch υ σ) (raw : σ → Text) {units : List υ} {start : σ}
    (hstart : '\r' ∉ raw start)
    (hkept : ∀ u ∈ units, ∀ s p, (b.attempt s u).value = .placed p →
      '\r' ∉ raw s → '\r' ∉ raw p.next)
    (strict telemetry : Bool) (content : Text) (warnings : List Warning) :
    Outcome.Restores
      ((b.writing raw content.dominantEnding).apply strict telemetry content start warnings
        units).value
      ((b.writing raw content.unifyEndings.dominantEnding).apply strict telemetry
        content.unifyEndings start warnings units).value content := by
  have hplain : content.unifyEndings.dominantEnding = .lf :=
    Text.dominantEnding_of_notMem content.cr_notMem_unifyEndings
  have hrun : ∀ e, (b.writing raw e).run strict telemetry start (.initial warnings) units =
      b.run strict telemetry start (.initial warnings) units := fun e => b.run_render _ _ _ _ _ _
  rw [hplain, apply_value, apply_value, hrun, hrun]
  cases hend : (b.run strict telemetry start (.initial warnings) units).value with
  | finished s t =>
    have hs : '\r' ∉ raw s := run_invariant hkept hstart hend
    have hcontent : ∀ e document, t.applied ≠ 0 →
        ((b.writing raw e).outcome document units (.finished s t)).content =
          (raw s).writeEndings e.text := fun e document happlied => if_neg happlied
    refine ⟨rfl, fun happlied => ?_, fun happlied => ?_, fun hzero => if_pos hzero⟩
    · rw [hcontent _ _ happlied, hcontent _ _ happlied]
      exact congrArg _ (Text.writeEndings_lineFeed (raw s)).symm
    · rw [hcontent _ _ happlied]
      exact Text.breaks_writeEndings hs _
  | aborted f e t =>
    exact ⟨rfl, fun happlied => absurd rfl happlied, fun happlied => absurd rfl happlied,
      fun _ => rfl⟩

end Batch

/-- A placed block brings no carriage return into a document. -/
theorem EditBlock.return_notMem_of_attempt {options : Options} {content : Text} {b : EditBlock}
    {p : Placement Text} (hp : (attempt options content b).value = .placed p)
    (h : '\r' ∉ content) : '\r' ∉ p.next := by
  obtain ⟨m, -, rfl⟩ := placement_of_attempt hp
  intro hmem
  rcases mem_splice hmem with heq | hmem | hmem
  · exact absurd heq (by decide)
  · exact h hmem
  · exact b.replacement.cr_notMem_unifyEndings hmem

/-- Whatever blocks were applied to a document with unified endings, it holds no carriage return. -/
theorem EditBlock.return_notMem_of_run {options : Options} {ending : LineEnding} {content s : Text}
    {strict telemetry : Bool} {t t' : Tally} {blocks : List EditBlock}
    (hrun : ((batch options ending).run strict telemetry content.unifyEndings t blocks).value =
      .finished s t') : '\r' ∉ s :=
  Batch.run_invariant (P := fun s : Text => '\r' ∉ s)
    (fun _ _ _ _ hp hs => return_notMem_of_attempt hp hs) content.cr_notMem_unifyEndings hrun

/-- After a last block that is placed, the document is the one that this block leaves. -/
theorem EditBlock.applyAll_concat (options : Options) {content s : Text} {t : Tally}
    {blocks : List EditBlock}
    (hrun : ((batch options content.dominantEnding).run options.strict options.telemetry
      content.unifyEndings (.initial []) blocks).value = .finished s t)
    {b : EditBlock} {p : Placement Text} (hp : (attempt options s b).value = .placed p) :
    (applyAll options content (blocks ++ [b])).value.content =
      p.next.writeEndings content.dominantEnding.text := by
  unfold applyAll
  rw [Batch.apply_value, Batch.run_append hrun, Batch.run_of_placed hp, Batch.run_nil]
  show (if t.applied + 1 = 0 then content else _) = _
  exact if_neg (Nat.succ_ne_zero t.applied)

/-- It has line feeds if the document had no other line breaks. -/
theorem EditBlock.applyAll_concat_of_notMem (options : Options) {content : Text}
    (hcontent : '\r' ∉ content) {blocks : List EditBlock} {s : Text} {t : Tally}
    (hrun : ((batch options .lf).run options.strict options.telemetry content (.initial [])
      blocks).value = .finished s t)
    {b : EditBlock} {p : Placement Text} (hp : (attempt options s b).value = .placed p) :
    (applyAll options content (blocks ++ [b])).value.content = p.next := by
  have hending := Text.dominantEnding_of_notMem hcontent
  have hrun' : ((batch options content.dominantEnding).run options.strict options.telemetry
      content.unifyEndings (.initial []) blocks).value = .finished s t := by
    rw [hending, Text.unifyEndings_of_notMem hcontent, hrun]
  rw [applyAll_concat options hrun' hp, hending]
  exact Text.writeEndings_lineFeed p.next

/-- Blocks are applied whatever the line endings of the document are. -/
theorem EditBlock.applyAll_restores (options : Options) (content : Text) (blocks : List EditBlock) :
    Outcome.Restores (applyAll options content blocks).value
      (applyAll options content.unifyEndings blocks).value content := by
  have hstart := content.cr_notMem_unifyEndings
  unfold applyAll
  rw [Text.unifyEndings_of_notMem hstart]
  exact (batch options .lf).apply_restores (fun s => s) hstart
    (fun _ _ _ _ hp hs => return_notMem_of_attempt hp hs) options.strict options.telemetry content []

/-- Hunks without carriage returns are applied whatever the line endings of the document are. -/
theorem Hunk.applyAll_restores (options : Options) (content : Text) {hunks : List Hunk}
    (hplain : ∀ h ∈ hunks, ∀ l ∈ h.lines, '\r' ∉ l.text) (warnings : List Warning) :
    Outcome.Restores (applyAll options content hunks warnings).value
      (applyAll options content.unifyEndings hunks warnings).value content := by
  have hunified := content.cr_notMem_unifyEndings
  have hstart : '\r' ∉ (HunkState.ofContent content.unifyEndings).content := by
    intro hmem
    rcases HunkState.mem_content_ofContent hmem with heq | hmem
    · exact absurd heq (by decide)
    · exact hunified hmem
  have hkept : ∀ h ∈ hunks, ∀ s p, (attempt options.maxFuzz s h).value = .placed p →
      '\r' ∉ s.content → '\r' ∉ p.next.content := by
    intro h hh s p hplaced hs hmem
    obtain ⟨a, -, -, rfl⟩ := placement_of_attempt hplaced
    rcases mem_content_put hmem with heq | hmem | ⟨l, hl, hmem⟩
    · exact absurd heq (by decide)
    · exact hs hmem
    · exact hplain h hh l hl hmem
  unfold applyAll
  rw [Text.unifyEndings_of_notMem hunified]
  exact (batch options .lf).apply_restores HunkState.content hstart hkept options.strict
    options.telemetry content warnings

/-! ## Calls -/

namespace Edit

/-- A call on a document and the call on the document with unified endings are refused alike, or the
outcome of the one follows from that of the other. -/
inductive Restores (content : Text) :
    Except EditError Outcome → Except EditError Outcome → Prop
  /-- Both calls are refused for the same reason. -/
  | refused (e : EditError) : Restores content (.error e) (.error e)
  /-- Both calls have an outcome. -/
  | applied {o plain : Outcome} :
    o.Restores plain content → Restores content (.ok o) (.ok plain)

variable (content edit : Text)

/-- Options that are refused are so before the document is looked at. -/
theorem withOptions_restores {work plain : Options → Traced Outcome}
    (h : ∀ options, (work options).value.Restores (plain options).value content)
    (options : Except OptionError Options) :
    Restores content (withOptions options work).value (withOptions options plain).value := by
  cases options with
  | error e => exact .refused (.option e)
  | ok options => exact .applied (h options)

/-- An edit text of blocks is read and applied whatever the line endings of the document are. -/
theorem applyBlocks_restores (options : Except OptionError Options) :
    Restores content (applyBlocks content edit options).value
      (applyBlocks content.unifyEndings edit options).value := by
  unfold applyBlocks
  rw [Traced.value_bind, Traced.value_bind]
  cases (EditBlock.read edit).value with
  | error e => exact .refused (.parse e)
  | ok blocks =>
    exact withOptions_restores content
      (fun options => EditBlock.applyAll_restores options content blocks) options

/-- An edit text of hunks is read and applied whatever the line endings of the document are. -/
theorem applyHunks_restores (options : Except OptionError Options) :
    Restores content (applyHunks content edit options).value
      (applyHunks content.unifyEndings edit options).value := by
  unfold applyHunks
  rw [Traced.value_bind, Traced.value_bind]
  cases hread : (ParsedDiff.read edit).value with
  | error e => exact .refused (.parse e)
  | ok diff =>
    have hplain : ∀ h ∈ diff.hunks, ∀ l ∈ h.lines, '\r' ∉ l.text := fun h hh l hl hmem =>
      edit.cr_notMem_unifyEndings (ParsedDiff.mem_of_read hread hh hl hmem)
    exact withOptions_restores content
      (fun options => Hunk.applyAll_restores options content hplain diff.warnings) options

/-- Settings are read before the edit text is. -/
theorem applyWith_restores (dialect : Dialect) (settings : Value) :
    Restores content (applyWith dialect content edit settings).value
      (applyWith dialect content.unifyEndings edit settings).value := by
  unfold applyWith
  split
  · next e _ => exact .refused (.option e)
  · split
    · next e _ => exact .refused (.option e)
    · next options _ =>
      cases dialect with
      | blocks => exact applyBlocks_restores content edit (.ok options)
      | hunks => exact applyHunks_restores content edit (.ok options)

/-- The line endings of a document do not matter to an edit: in each of the two dialects, and in the
one that the edit text shows itself, the call on the document follows from the call on the document
with unified endings. -/
theorem restores_endings :
    (∀ options, Restores content (applyBlocks content edit options).value
      (applyBlocks content.unifyEndings edit options).value) ∧
    (∀ options, Restores content (applyHunks content edit options).value
      (applyHunks content.unifyEndings edit options).value) ∧
    (∀ settings, Restores content (applyAuto content edit settings).value
      (applyAuto content.unifyEndings edit settings).value) := by
  refine ⟨applyBlocks_restores content edit, applyHunks_restores content edit, fun settings => ?_⟩
  unfold applyAuto
  dsimp only
  split
  · next e _ => exact .refused (.dialect e)
  · next dialect _ => exact applyWith_restores content (Wrapping.unwrap edit) dialect settings

end Edit

end Emend
