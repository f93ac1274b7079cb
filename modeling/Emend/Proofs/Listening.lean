import Emend.Apply.Edit
import Emend.Proofs.DiffSteps

/-!
# Nobody who listens changes the work

The library hands the logger of a call to all of its parts, and one of them asks the logger before
it puts a record together. `Traced.Tells` says that this never matters: each logger gets the value
that all others get, and it keeps the records that it listens to of those that there are, in their
order. Steps of work that tell so may be put one after another (`Tells.bind`), and the question is
harmless where only a record of the level in question hangs on it (`Tells.guarded`).

From there it goes bottom up: readers, the search for a text or for an anchor, one unit, a run over
units by induction, an edit text. Up to a unit all records are steps of the work; a run adds what
is said about its units.
-/

namespace Emend

/-- A logger keeps of two traces what it keeps of each. -/
theorem Logger.select_append (logger : Logger) (first second : List Record) :
    logger.select (first ++ second) = logger.select first ++ logger.select second :=
  List.filter_append first second

namespace Traced

variable {α β : Type} {p : Level → Prop}

/-- Work gives the same value to all loggers, and each keeps the records that it listens to; all of
the records are of the given levels. -/
structure Tells (p : Level → Prop) (x : Traced α) : Prop where
  /-- Whoever listens gets the value, and the records that are for them. -/
  heard : ∀ logger, x.heardBy logger = (x.value, logger.select x.trace)
  /-- The records are of the levels. -/
  levels : ∀ record ∈ x.trace, p record.level

namespace Tells

/-- A value that took no work tells nothing. -/
theorem pure (a : α) : Tells p (Pure.pure a) := ⟨fun _ => rfl, List.forall_mem_nil _⟩

/-- Work may go on with the value of other work. -/
theorem bind {x : Traced α} {f : α → Traced β} (hx : x.Tells p) (hf : ∀ a, (f a).Tells p) :
    (x >>= f).Tells p := by
  constructor
  · intro logger
    have hbind : (x >>= f).heardBy logger =
        (((f (x.heardBy logger).1).heardBy logger).1,
          (x.heardBy logger).2 ++ ((f (x.heardBy logger).1).heardBy logger).2) := rfl
    rw [hbind, hx.heard logger, (hf x.value).heard logger, value_bind, trace_bind,
      Logger.select_append]
  · rw [trace_bind]
    exact List.forall_mem_append.mpr ⟨hx.levels, (hf x.value).levels⟩

/-- Work may depend on a condition. -/
theorem ite {c : Prop} [Decidable c] {x y : Traced α} (hx : x.Tells p) (hy : y.Tells p) :
    (if c then x else y).Tells p := by
  split
  · exact hx
  · exact hy

/-- Records of some levels may be told. -/
theorem tell {records : List Record} (h : ∀ record ∈ records, p record.level) :
    (Traced.tell records).Tells p := by
  refine ⟨fun logger => ?_, ?_⟩
  · rw [trace_tell]
    rfl
  · rwa [trace_tell]

/-- A record may be told. -/
theorem say {level : Level} (h : p level) (message : String) :
    (Traced.say level message).Tells p :=
  tell (List.forall_mem_singleton.mpr h)

/-- A record may be put together only for who listens to its level. -/
theorem guarded {level : Level} (h : p level) (message : String) :
    (Traced.listens level >>= fun b =>
      if b = true then Traced.say level message else Pure.pure ()).Tells p := by
  have hvalue : (Traced.listens level >>= fun b =>
      if b = true then Traced.say level message else Pure.pure ()).trace = [⟨level, message⟩] := by
    rw [trace_bind, trace_listens, value_listens, if_pos rfl, trace_say, List.nil_append]
  refine ⟨fun logger => ?_, ?_⟩
  · rw [hvalue]
    -- Who does not listen would not keep the record.
    show ((if logger.listensTo level = true then Traced.say level message
      else Pure.pure ()).heardBy logger) = _
    split
    · rfl
    · next hdeaf =>
      have hnone : logger.select [⟨level, message⟩] = [] := List.filter_cons_of_neg hdeaf
      rw [hnone]
      rfl
  · rw [hvalue]
    exact List.forall_mem_singleton.mpr h

/-- What tells records of some levels tells records of any that these are among. -/
theorem mono {q : Level → Prop} {x : Traced α} (hx : x.Tells p) (h : ∀ level, p level → q level) :
    x.Tells q :=
  ⟨hx.heard, fun record hrecord => h record.level (hx.levels record hrecord)⟩

end Tells

/-- Work that tells nothing but its steps. -/
abbrev TellsSteps (x : Traced α) : Prop := x.Tells (· = .debug)

/-- A step may be told. -/
theorem Tells.step (message : String) : (Traced.say .debug message).TellsSteps :=
  .tell (List.forall_mem_singleton.mpr rfl)

end Traced

open Traced

/-! ## Reading -/

/-- Blocks are read in steps. -/
theorem EditBlock.read_tells (edit : Text) : (read edit).TellsSteps := by
  unfold read
  split
  next blocks fault _ =>
  refine .bind (.tell fun record hrecord => ?_) fun _ => ?_
  · obtain ⟨i, b, rfl⟩ : ∃ i b, record = completed i b := by
      obtain ⟨i, hi, rfl⟩ := List.mem_mapIdx.mp hrecord
      exact ⟨i, _, rfl⟩
    rfl
  · cases fault with
    | some e => exact .pure _
    | none => exact .bind (.step _) fun _ => .pure _

namespace DiffReader

variable {r s : DiffReader}

/-- Closing a hunk tells nothing. -/
theorem trace_close (h : r.close = .ok s) : s.trace = r.trace := by
  rcases close_cases h with ⟨-, rfl⟩ | ⟨g, t, warnings, -, -, rfl⟩ <;> rfl

/-- A line tells a step at most. -/
theorem trace_addLine {g : Hunk} {line : Text} {rest : List DiffLine}
    (h : r.addLine g line rest = .ok s) :
    s.trace = r.trace ∨ ∃ message, s.trace = r.trace ++ [⟨.debug, message⟩] := by
  unfold addLine at h
  split at h
  all_goals try
    cases h
    exact .inl rfl
  -- Only a line without a mark that is taken as context is told.
  split at h
  · cases h
    exact .inr ⟨_, rfl⟩
  · exact .inl (trace_close h)

/-- What stands next makes a reader tell a step at most. -/
theorem trace_step {next : DiffLine} {rest : List DiffLine} (h : r.step next rest = .ok s) :
    s.trace = r.trace ∨ ∃ message, s.trace = r.trace ++ [⟨.debug, message⟩] := by
  rcases step_cases h with ⟨line, t, -, hclose, hopen⟩ | ⟨-, hclose⟩ |
    ⟨old, new, t, -, hclose, rfl⟩ | ⟨line, -, ⟨-, rfl⟩ | ⟨g, -, hline⟩⟩
  · obtain ⟨g, -, rfl⟩ := openHunk_cases hopen
    have htrace : t.trace = r.trace := trace_close hclose
    exact .inl htrace
  · exact .inl (trace_close hclose)
  · have htrace : t.trace = r.trace := trace_close hclose
    exact .inl htrace
  · exact .inl rfl
  · exact trace_addLine hline

/-- A reader that has told steps only tells steps only to its end. -/
theorem debug_of_mem_run {lines : List DiffLine} (hr : ∀ record ∈ r.trace, record.level = .debug) :
    ∀ record ∈ (r.run lines).1.trace, record.level = .debug := by
  induction lines generalizing r with
  | nil =>
    rw [run]
    split
    · next s hclose => rwa [trace_close hclose]
    · exact hr
  | cons next rest ih =>
    rw [run]
    split
    · next s hstep =>
      refine ih ?_
      show ∀ record ∈ s.trace, record.level = .debug
      rcases trace_step hstep with htrace | ⟨message, htrace⟩
      · rwa [htrace]
      · rw [htrace]
        exact List.forall_mem_append.mpr ⟨hr, List.forall_mem_singleton.mpr rfl⟩
    · exact hr

end DiffReader

/-- A diff is read in steps. -/
theorem ParsedDiff.read_tells (edit : Text) : (read edit).TellsSteps := by
  have hsteps : ∀ record ∈ (DiffReader.initial.run (DiffLine.ofEdit edit)).1.trace,
      record.level = .debug :=
    DiffReader.debug_of_mem_run (List.forall_mem_nil _)
  unfold read
  split
  next r fault hrun =>
  rw [hrun] at hsteps
  refine .bind (.tell hsteps) fun _ => ?_
  cases fault with
  | some e => exact .pure _
  | none => exact .bind (.step _) fun _ => .pure _

/-! ## Searching -/

namespace Match

/-- A choice is told in steps. -/
theorem sayChoice_tells (m : Match) : (sayChoice m).TellsSteps := by
  unfold sayChoice
  cases m.ambiguity with
  | none => exact .bind (.pure _) fun _ => .step _
  | some a => exact .bind (.step _) fun _ => .step _

/-- What a strategy found is told in a step. -/
theorem sayFound_tells (strategy : Strategy) (found : List Candidate) :
    (sayFound strategy found).TellsSteps :=
  Tells.guarded (p := (· = .debug)) rfl (listing strategy found)

/-- The strategies are tried in steps. -/
theorem firstMatch_tells (threshold : Binary64) (content search : Text)
    (strategies : List Strategy) :
    (firstMatch threshold content search strategies).TellsSteps := by
  induction strategies with
  | nil => exact .pure _
  | cons s ss ih =>
    rw [firstMatch]
    refine .bind (sayFound_tells s _) fun _ => ?_
    cases choose? content s (candidates s threshold content search) with
    | some m => exact .bind (sayChoice_tells m) fun _ => .pure _
    | none => exact ih

/-- A search text is located in steps. -/
theorem locate_tells (strategies : List Strategy) (threshold : Binary64) (content search : Text) :
    (locate strategies threshold content search).TellsSteps := by
  have hblank : (blankMatch content).TellsSteps :=
    .ite (.pure _) (.bind (.step _) fun _ => .pure _)
  have hbest : (findBest strategies threshold content search).TellsSteps :=
    .ite hblank (firstMatch_tells threshold content search strategies)
  refine .bind hbest fun found => ?_
  cases found <;> exact .pure _

end Match

namespace Anchor

/-- The nearest place of a level is told in steps. -/
theorem nearestAt_tells (lines : List Text) (side : List HunkLine) (expected : Int)
    (level : AnchorLevel) : (nearestAt lines side expected level).TellsSteps := by
  unfold nearestAt
  split
  · exact .pure _
  · exact .ite (.bind (.step _) fun _ => .pure _) (.bind (.step _) fun _ => .pure _)

/-- The levels are gone through in steps. -/
theorem firstLevel_tells (lines : List Text) (side : List HunkLine) (expected : Int)
    (levels : List AnchorLevel) : (firstLevel lines side expected levels).TellsSteps := by
  induction levels with
  | nil => exact .pure _
  | cons level levels ih =>
    refine .bind (nearestAt_tells lines side expected level) fun found => ?_
    cases found with
    | some a => exact .pure _
    | none => exact ih

/-- An anchor is found in steps. -/
theorem find_tells (lines : List Text) (hunk : Hunk) (expected : Int) (maxFuzz : Nat) :
    (find lines hunk expected maxFuzz).TellsSteps := by
  unfold find
  exact .ite (.pure _) <| .ite (.pure _) <|
    .ite (.bind (.step _) fun _ => .pure _) (firstLevel_tells lines hunk.oldSide expected _)

end Anchor

/-! ## Applying -/

/-- A block is attempted in steps. -/
theorem EditBlock.attempt_tells (options : Options) (content : Text) (b : EditBlock) :
    (attempt options content b).TellsSteps := by
  refine .bind (Match.locate_tells _ _ _ _) fun found => ?_
  cases found <;> exact .pure _

/-- A hunk is attempted in steps. -/
theorem Hunk.attempt_tells (maxFuzz : Nat) (s : HunkState) (h : Hunk) :
    (attempt maxFuzz s h).TellsSteps := by
  refine .bind (.step _) fun _ => .ite (.bind (Anchor.find_tells _ _ _ _) fun found => ?_) (.pure _)
  cases found <;> exact .pure _

namespace Batch

variable {υ σ : Type} {b : Batch υ σ}

/-- A run tells whoever listens what its units tell, and what it says about them. -/
theorem run_tells (hb : ∀ s u, (b.attempt s u).TellsSteps) (strict telemetry : Bool)
    (units : List υ) (s : σ) (t : Tally) :
    (b.run strict telemetry s t units).Tells fun _ => True := by
  induction units generalizing s t with
  | nil => exact .pure _
  | cons u units ih =>
    rw [run]
    refine .bind ((hb s u).mono fun _ _ => trivial) fun came => ?_
    cases came with
    | placed p =>
      cases telemetry with
      | true => exact .bind (.say trivial _) fun _ => ih p.next _
      | false => exact ih p.next _
    | failed f e =>
      refine .bind (.say trivial _) fun _ => ?_
      cases strict with
      | true => exact .pure _
      | false => exact ih s _

/-- So does the work that applies units to a document. -/
theorem apply_tells (hb : ∀ s u, (b.attempt s u).TellsSteps) (strict telemetry : Bool)
    (content : Text) (start : σ) (warnings : List Warning) (units : List υ) :
    (b.apply strict telemetry content start warnings units).Tells fun _ => True :=
  .bind (run_tells hb strict telemetry units start _) fun _ => .pure _

end Batch

/-- Blocks are applied in the same way whoever listens. -/
theorem EditBlock.applyAll_tells (options : Options) (content : Text) (blocks : List EditBlock) :
    (applyAll options content blocks).Tells fun _ => True :=
  Batch.apply_tells (attempt_tells options) _ _ _ _ _ _

/-- Hunks are applied in the same way whoever listens. -/
theorem Hunk.applyAll_tells (options : Options) (content : Text) (hunks : List Hunk)
    (warnings : List Warning) : (applyAll options content hunks warnings).Tells fun _ => True :=
  Batch.apply_tells (attempt_tells options.maxFuzz) _ _ _ _ _ _

namespace Edit

/-- Work that needs options tells what it tells with them. -/
theorem withOptions_tells {work : Options → Traced Outcome}
    (hwork : ∀ options, (work options).Tells fun _ => True)
    (options : Except OptionError Options) : (withOptions options work).Tells fun _ => True := by
  cases options with
  | error e => exact .pure _
  | ok options => exact .bind (hwork options) fun _ => .pure _

/-- An edit text is applied in its dialect in the same way whoever listens. -/
theorem applyIn_tells (dialect : Dialect) (content edit : Text)
    (options : Except OptionError Options) :
    (applyIn dialect content edit options).Tells fun _ => True := by
  cases dialect with
  | blocks =>
    refine .bind ((EditBlock.read_tells edit).mono fun _ _ => trivial) fun read => ?_
    cases read with
    | error e => exact .pure _
    | ok blocks => exact withOptions_tells (fun o => EditBlock.applyAll_tells o content blocks) _
  | hunks =>
    refine .bind ((ParsedDiff.read_tells edit).mono fun _ _ => trivial) fun read => ?_
    cases read with
    | error e => exact .pure _
    | ok diff =>
      exact withOptions_tells (fun o => Hunk.applyAll_tells o content diff.hunks diff.warnings) _

/-- It is so with settings. -/
theorem applyWith_tells (dialect : Dialect) (content edit : Text) (settings : Value) :
    (applyWith dialect content edit settings).Tells fun _ => True := by
  unfold applyWith
  split
  · exact .pure _
  · split
    · exact .pure _
    · exact .bind (.say trivial _) fun _ => applyIn_tells dialect content edit _

/-- It is so in a dialect that a value names. -/
theorem applyNamed_tells (dialect : Value) (content edit : Text) (settings : Value) :
    (applyNamed dialect content edit settings).Tells fun _ => True := by
  unfold applyNamed
  split
  · exact .pure _
  · exact applyWith_tells _ content edit settings

/-- It is so in the dialect that the edit text shows. -/
theorem applyAuto_tells (content edit : Text) (settings : Value) :
    (applyAuto content edit settings).Tells fun _ => True := by
  unfold applyAuto
  dsimp only
  split
  · exact .pure _
  · exact .bind (.say trivial _) fun _ => applyWith_tells _ content _ settings

end Edit

end Emend
