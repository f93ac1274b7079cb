import Emend.Proofs.Listening

/-!
# Observing a call does not disturb it

A call is observed in two ways: a logger listens to it, and telemetry records where units were
found. That the logger does not matter is what all parts of a call tell (`Call.run_tells`). For
telemetry two runs are gone through side by side (`Batch.run_muted`): at each unit they are in the
same state, their tallies are the same but for the records, and the run with telemetry tells one
record more if the unit is placed. What comes before and after a run is the same for both, since
settings with telemetry switched are read as the same options but for the switch
(`Settings.options_withTelemetry`).
-/

namespace Emend

/-! ## Switching telemetry -/

/-- Whether an entry of a mapping is not about telemetry, under whatever name. -/
def Value.isOther (e : Text × Value) : Bool := Setting.ofName? e.1 != some .telemetry

/-- Settings with telemetry switched on or off. Settings that are no mapping stay as they are. -/
def Value.withTelemetry (on : Bool) : Value → Value
  | .null => .mapping [("enable_telemetry".toList, .bool on)]
  | .mapping entries =>
    .mapping (entries.filter isOther ++ [("enable_telemetry".toList, .bool on)])
  | v => v

/-- Options with telemetry switched on or off. -/
def Options.withTelemetry (on : Bool) (options : Options) : Options :=
  { options with telemetry := on }

namespace Settings

/-- Whether a setting that was read is not telemetry. -/
def isOther (e : Setting × Value) : Bool := e.1 != .telemetry

/-- Settings that were read, with telemetry switched on or off. -/
def withTelemetry (on : Bool) (settings : Settings) : Settings :=
  settings.filter isOther ++ [(.telemetry, .bool on)]

/-- The first entry of a mapping is read before the others. -/
theorem ofEntries_cons (e : Text × Value) (entries : List (Text × Value)) :
    ofEntries (e :: entries) =
      match Setting.ofName? e.1 with
      | some s => (ofEntries entries).map ((s, e.2) :: ·)
      | none => .error (.unknownKey e.1) := by
  unfold ofEntries
  rw [List.mapM_cons]
  cases Setting.ofName? e.1 <;> rfl

/-- A mapping with telemetry switched is read as its settings with telemetry switched. -/
theorem ofEntries_withTelemetry (on : Bool) (entries : List (Text × Value)) :
    ofEntries (entries.filter Value.isOther ++ [("enable_telemetry".toList, .bool on)]) =
      (ofEntries entries).map (withTelemetry on) := by
  induction entries with
  | nil => rfl
  | cons e entries ih =>
    rw [ofEntries_cons e entries]
    cases hname : Setting.ofName? e.1 with
    | none =>
      have hkept : Value.isOther e = true := by
        rw [Value.isOther, hname]
        rfl
      rw [List.filter_cons_of_pos hkept, List.cons_append, ofEntries_cons, hname]
      rfl
    | some s =>
      by_cases hs : s = .telemetry
      · -- The entry is left out before it is read or afterwards.
        have hdropped : ¬ Value.isOther e = true := by
          rw [Value.isOther, hname, hs]
          decide
        rw [List.filter_cons_of_neg hdropped, ih, hs]
        dsimp only
        cases ofEntries entries <;> rfl
      · have hkept : Value.isOther e = true := by
          rw [Value.isOther, hname]
          exact bne_iff_ne.mpr fun h => hs (Option.some.inj h)
        have hread : isOther (s, e.2) = true := bne_iff_ne.mpr hs
        rw [List.filter_cons_of_pos hkept, List.cons_append, ofEntries_cons, hname, ih]
        dsimp only
        cases ofEntries entries with
        | error _ => rfl
        | ok settings =>
          have hcons : withTelemetry on ((s, e.2) :: settings) =
              (s, e.2) :: withTelemetry on settings := by
            rw [withTelemetry, List.filter_cons_of_pos hread, List.cons_append, withTelemetry]
          exact congrArg Except.ok hcons.symm

/-- Settings with telemetry switched are read as such. -/
theorem ofValue_withTelemetry (on : Bool) (v : Value) :
    ofValue (v.withTelemetry on) = (ofValue v).map (withTelemetry on) := by
  cases v with
  | mapping entries => exact ofEntries_withTelemetry on entries
  | _ => rfl

/-- Telemetry has the value it is switched to. -/
theorem value?_telemetry (on : Bool) (settings : Settings) :
    (settings.withTelemetry on).value? .telemetry = some (.bool on) := by
  unfold value? withTelemetry
  rw [List.reverse_append]
  rfl

/-- All other settings keep their values. -/
theorem value?_of_ne {s : Setting} (hs : s ≠ .telemetry) (on : Bool) (settings : Settings) :
    (settings.withTelemetry on).value? s = settings.value? s := by
  let named : Setting × Value → Bool := fun e => decide (e.1 = s)
  have hlast : ¬ named (.telemetry, .bool on) = true := by
    rw [decide_eq_true_iff]
    exact Ne.symm hs
  -- Whatever has the name is another setting than telemetry.
  have hnamed : (fun e => decide (isOther e = true ∧ named e = true)) = named := by
    funext e
    by_cases he : e.1 = s
    · have hother : isOther e = true := by
        rw [isOther, he]
        exact bne_iff_ne.mpr hs
      have hyes : named e = true := decide_eq_true he
      simp only [hother, hyes, and_self, decide_true]
    · have hnot : named e = false := decide_eq_false he
      simp only [hnot, Bool.false_eq_true, and_false, decide_false]
  have hfind : (settings.withTelemetry on).reverse.find? named = settings.reverse.find? named := by
    rw [withTelemetry, List.reverse_append, List.reverse_singleton, List.singleton_append,
      List.find?_cons_of_neg hlast, ← List.filter_reverse, List.find?_filter, hnamed]
  exact congrArg (Option.map Prod.snd) hfind

/-- The setting that makes a call strict keeps its value. -/
theorem strict_withTelemetry (on : Bool) (settings : Settings) :
    (settings.withTelemetry on).strict = settings.strict := by
  rw [strict, value?_of_ne (by decide), strict]

/-- All other settings are read in the same way. -/
theorem read_of_ne {α : Type} {s : Setting} (hs : s ≠ .telemetry) (on : Bool) (settings : Settings)
    (default : α) (reader : Value → Except OptionError α) :
    (settings.withTelemetry on).read s default reader = settings.read s default reader := by
  rw [read, value?_of_ne hs, read]

/-- The options that settings make with telemetry switched are those that they make, but for the
switch. -/
theorem options_withTelemetry (on : Bool) (settings : Settings) :
    (settings.withTelemetry on).options = settings.options.map (Options.withTelemetry on) := by
  unfold options
  rw [read_of_ne (by decide), read_of_ne (by decide), read_of_ne (by decide),
    strict_withTelemetry, value?_telemetry]
  cases settings.read .strategies Options.default.strategies strategies with
  | error _ => rfl
  | ok ss =>
    cases settings.read .threshold Options.default.threshold threshold with
    | error _ => rfl
    | ok x => cases settings.read .maxFuzz Options.default.maxFuzz maxFuzz <;> rfl

/-- Whether settings have telemetry on. -/
def telemetry (settings : Settings) : Bool :=
  ((settings.value? .telemetry).map Value.isTrue).getD Options.default.telemetry

/-- Settings with telemetry switched to what it is make the same options. -/
theorem options_withTelemetry_self (settings : Settings) :
    (settings.withTelemetry settings.telemetry).options = settings.options := by
  rw [options_withTelemetry]
  unfold options
  cases settings.read .strategies Options.default.strategies strategies with
  | error _ => rfl
  | ok ss =>
    cases settings.read .threshold Options.default.threshold threshold with
    | error _ => rfl
    | ok x => cases settings.read .maxFuzz Options.default.maxFuzz maxFuzz <;> rfl

end Settings

/-- The options of settings with telemetry switched are theirs, but for the switch. -/
theorem Options.ofValue_withTelemetry (on : Bool) (v : Value) :
    ofValue (v.withTelemetry on) = (ofValue v).map (withTelemetry on) := by
  unfold ofValue
  rw [Settings.ofValue_withTelemetry]
  cases Settings.ofValue v with
  | error _ => rfl
  | ok settings => exact Settings.options_withTelemetry on settings

/-- Whether settings have telemetry on; those that are refused have not. -/
def Value.telemetry (v : Value) : Bool :=
  match Settings.ofValue v with
  | .ok settings => settings.telemetry
  | .error _ => false

/-- Telemetry switched to what it is makes no other options. -/
theorem Options.ofValue_withTelemetry_self (v : Value) :
    ofValue (v.withTelemetry v.telemetry) = ofValue v := by
  unfold ofValue Value.telemetry
  rw [Settings.ofValue_withTelemetry]
  cases Settings.ofValue v with
  | error _ => rfl
  | ok settings => exact Settings.options_withTelemetry_self settings

/-- An edit text is applied in the same way with telemetry switched to what it is. -/
theorem Edit.applyWith_withTelemetry_self (dialect : Dialect) (content edit : Text)
    (settings : Value) :
    applyWith dialect content edit (settings.withTelemetry settings.telemetry) =
      applyWith dialect content edit settings := by
  unfold applyWith Value.telemetry
  rw [Settings.ofValue_withTelemetry]
  cases Settings.ofValue settings with
  | error _ => rfl
  | ok given =>
    dsimp only [Except.map]
    rw [Settings.options_withTelemetry_self, Settings.strict_withTelemetry]

/-! ## Runs -/

/-- A tally without its records. -/
def Tally.withoutRecords (t : Tally) : Tally := { t with records := [] }

/-- An ending without records. -/
def Ending.withoutRecords {σ : Type} : Ending σ → Ending σ
  | .finished s t => .finished s t.withoutRecords
  | .aborted failure error t => .aborted failure error t.withoutRecords

/-- An outcome without records. -/
def Outcome.withoutRecords (o : Outcome) : Outcome := { o with records := [] }

/-- A trace without what is said about units that were applied. -/
def unannounced (trace : List Record) : List Record := trace.filter (·.level != .info)

namespace Traced

variable {α β : Type}

/-- Work gives what other work gives with something left out, and tells what that tells but for what
it says about units that were applied. -/
structure Mutes (drop : α → α) (off on : Traced α) : Prop where
  /-- The value has something left out. -/
  value : off.value = drop on.value
  /-- The trace has the announcements left out. -/
  trace : off.trace = unannounced on.trace

/-- Steps are no announcements. -/
theorem TellsSteps.unannounced_trace {x : Traced α} (hx : x.TellsSteps) :
    unannounced x.trace = x.trace := by
  refine List.filter_eq_self.mpr fun record hrecord => ?_
  rw [hx.levels record hrecord]
  rfl

namespace Mutes

variable {drop : α → α}

/-- Values without work. -/
theorem pure {a b : α} (h : b = drop a) : Mutes drop (Pure.pure b) (Pure.pure a) := ⟨h, rfl⟩

/-- The same steps before. -/
theorem steps_bind {x : Traced β} (hx : x.TellsSteps) {f g : β → Traced α}
    (h : Mutes drop (f x.value) (g x.value)) : Mutes drop (x >>= f) (x >>= g) := by
  refine ⟨h.value, ?_⟩
  rw [trace_bind, trace_bind, unannounced, List.filter_append, h.trace]
  exact congrArg (· ++ _) hx.unannounced_trace.symm

/-- The value after the work. -/
theorem bind_pure {drop' : β → β} {off on : Traced β} (h : Mutes drop' off on) {f : β → α}
    (hf : ∀ b, f (drop' b) = drop (f b)) :
    Mutes drop (off >>= fun b => Pure.pure (f b)) (on >>= fun b => Pure.pure (f b)) := by
  constructor
  · show f off.value = drop (f on.value)
    rw [h.value, hf]
  · rw [trace_bind, trace_bind, trace_pure, trace_pure, List.append_nil, List.append_nil, h.trace]

end Mutes

end Traced

open Traced

namespace Batch

variable {υ σ : Type} {b : Batch υ σ}

/-- A run without telemetry ends as the run with it, but for the records, and tells the same but for
what is said about the placed units. -/
theorem run_muted (hb : ∀ s u, (b.attempt s u).TellsSteps) (strict : Bool) (units : List υ) (s : σ)
    (t : Tally) :
    Mutes Ending.withoutRecords (b.run strict false s t.withoutRecords units)
      (b.run strict true s t units) := by
  -- Both runs are in the same state at each unit, and their tallies differ in the records only.
  induction units generalizing s t with
  | nil => exact .pure rfl
  | cons u units ih =>
    rw [run, run]
    refine .steps_bind (hb s u) ?_
    cases (b.attempt s u).value with
    | placed p =>
      -- Only here do the runs differ: one of them keeps a record and announces the unit.
      obtain ⟨hvalue, htrace⟩ := ih p.next (t.place true p)
      exact ⟨hvalue, htrace⟩
    | failed f e =>
      cases strict with
      | true => exact ⟨rfl, rfl⟩
      | false =>
        obtain ⟨hvalue, htrace⟩ := ih s (t.fail f e)
        exact ⟨hvalue, congrArg _ htrace⟩

/-- The outcome without telemetry is that with telemetry, but for the records. -/
theorem apply_muted (hb : ∀ s u, (b.attempt s u).TellsSteps) (strict : Bool) (content : Text)
    (start : σ) (warnings : List Warning) (units : List υ) :
    Mutes Outcome.withoutRecords (b.apply strict false content start warnings units)
      (b.apply strict true content start warnings units) :=
  (run_muted hb strict units start (.initial warnings)).bind_pure fun ending => by
    cases ending <;> rfl

end Batch

/-! ## Calls -/

/-- A call goes the same way whoever listens. -/
theorem Call.run_tells (call : Call) (content : Text) (settings : Value) :
    (call.run content settings).Tells fun _ => True := by
  cases call with
  | blocks units =>
    exact Edit.withOptions_tells (fun o => EditBlock.applyAll_tells o content units) _
  | hunks units warnings =>
    exact Edit.withOptions_tells (fun o => Hunk.applyAll_tells o content units warnings) _
  | blockText edit => exact Edit.applyIn_tells .blocks content edit _
  | hunkText edit => exact Edit.applyIn_tells .hunks content edit _
  | named dialect edit => exact Edit.applyNamed_tells dialect content edit settings
  | auto edit => exact Edit.applyAuto_tells content edit settings

namespace Edit

/-- Without telemetry a call is answered in the same way but for the records of the outcome. -/
abbrev MutesAnswer (off on : Traced (Except EditError Outcome)) : Prop :=
  Mutes (Except.map Outcome.withoutRecords) off on

/-- Work that needs options gives the same without telemetry, but for the records. -/
theorem withOptions_muted {work : Options → Traced Outcome}
    (hwork : ∀ o : Options, Mutes Outcome.withoutRecords (work (o.withTelemetry false))
      (work (o.withTelemetry true))) (options : Except OptionError Options) :
    MutesAnswer (withOptions (options.map (Options.withTelemetry false)) work)
      (withOptions (options.map (Options.withTelemetry true)) work) := by
  cases options with
  | error e => exact .pure rfl
  | ok options => exact (hwork options).bind_pure fun _ => rfl

/-- Blocks are applied in the same way without telemetry, but for the records. -/
theorem applyAll_blocks_muted (content : Text) (blocks : List EditBlock) (o : Options) :
    Mutes Outcome.withoutRecords
      (EditBlock.applyAll (o.withTelemetry false) content blocks)
      (EditBlock.applyAll (o.withTelemetry true) content blocks) :=
  Batch.apply_muted (EditBlock.attempt_tells o) o.strict content _ [] blocks

/-- Hunks are applied in the same way without telemetry, but for the records. -/
theorem applyAll_hunks_muted (content : Text) (hunks : List Hunk) (warnings : List Warning)
    (o : Options) :
    Mutes Outcome.withoutRecords
      (Hunk.applyAll (o.withTelemetry false) content hunks warnings)
      (Hunk.applyAll (o.withTelemetry true) content hunks warnings) :=
  Batch.apply_muted (Hunk.attempt_tells o.maxFuzz) o.strict content _ warnings hunks

/-- An edit text is applied in its dialect in the same way without telemetry, but for the
records. -/
theorem applyIn_muted (dialect : Dialect) (content edit : Text)
    (options : Except OptionError Options) :
    MutesAnswer (applyIn dialect content edit (options.map (Options.withTelemetry false)))
      (applyIn dialect content edit (options.map (Options.withTelemetry true))) := by
  cases dialect with
  | blocks =>
    refine .steps_bind (EditBlock.read_tells edit) ?_
    cases (EditBlock.read edit).value with
    | error e => exact .pure rfl
    | ok blocks => exact withOptions_muted (applyAll_blocks_muted content blocks) options
  | hunks =>
    refine .steps_bind (ParsedDiff.read_tells edit) ?_
    cases (ParsedDiff.read edit).value with
    | error e => exact .pure rfl
    | ok diff =>
      exact withOptions_muted (applyAll_hunks_muted content diff.hunks diff.warnings) options

/-- It is so with settings. -/
theorem applyWith_muted (dialect : Dialect) (content edit : Text) (settings : Value) :
    MutesAnswer (applyWith dialect content edit (settings.withTelemetry false))
      (applyWith dialect content edit (settings.withTelemetry true)) := by
  unfold applyWith
  rw [Settings.ofValue_withTelemetry, Settings.ofValue_withTelemetry]
  cases Settings.ofValue settings with
  | error e => exact .pure rfl
  | ok given =>
    dsimp only [Except.map]
    rw [Settings.options_withTelemetry, Settings.options_withTelemetry,
      Settings.strict_withTelemetry, Settings.strict_withTelemetry]
    cases given.options with
    | error e => exact .pure rfl
    | ok options => exact .steps_bind (.step _) (applyIn_muted dialect content edit (.ok options))

end Edit

/-- Telemetry may be switched to what it is. -/
theorem Call.run_withTelemetry_self (call : Call) (content : Text) (settings : Value) :
    call.run content (settings.withTelemetry settings.telemetry) = call.run content settings := by
  have hoptions := Options.ofValue_withTelemetry_self settings
  have happly := fun dialect edit =>
    Edit.applyWith_withTelemetry_self dialect content edit settings
  unfold run
  cases call with
  | blocks units => rw [hoptions]
  | hunks units warnings => rw [hoptions]
  | blockText edit => rw [hoptions]
  | hunkText edit => rw [hoptions]
  | named dialect edit => simp only [Edit.applyNamed, happly]
  | auto edit => simp only [Edit.applyAuto, happly]

/-- A call without telemetry is answered as with it, but for the records of the outcome. -/
theorem Call.run_muted (call : Call) (content : Text) (settings : Value) :
    Edit.MutesAnswer (call.run content (settings.withTelemetry false))
      (call.run content (settings.withTelemetry true)) := by
  have hoptions := fun on => Options.ofValue_withTelemetry on settings
  unfold run
  cases call with
  | blocks units =>
    rw [hoptions, hoptions]
    exact Edit.withOptions_muted (Edit.applyAll_blocks_muted content units) _
  | hunks units warnings =>
    rw [hoptions, hoptions]
    exact Edit.withOptions_muted (Edit.applyAll_hunks_muted content units warnings) _
  | blockText edit =>
    rw [hoptions, hoptions]
    exact Edit.applyIn_muted .blocks content edit _
  | hunkText edit =>
    rw [hoptions, hoptions]
    exact Edit.applyIn_muted .hunks content edit _
  | named dialect edit =>
    dsimp only
    unfold Edit.applyNamed
    cases Dialect.ofValue dialect with
    | error e => exact .pure rfl
    | ok dialect => exact Edit.applyWith_muted dialect content edit settings
  | auto edit =>
    dsimp only
    unfold Edit.applyAuto
    dsimp only
    cases Dialect.detect (Wrapping.unwrap edit) with
    | error e => exact .pure rfl
    | ok dialect =>
      exact .steps_bind (.step _) (Edit.applyWith_muted dialect content _ settings)

/-! ## Observation -/

/-- Observing a call does not disturb it. Whoever listens gets the same answer, and hears what they
listen to of what one hears who listens to everything, in order. Switching telemetry off takes the
records out of the outcome and the announcements of applied units out of the log, and nothing
else. -/
theorem Call.run_undisturbed (call : Call) (content : Text) (settings : Value) :
    (∀ logger : Logger,
      ((call.run content settings).heardBy logger).1 =
        ((call.run content settings).heardBy .silent).1 ∧
      ((call.run content settings).heardBy logger).2 =
        logger.select ((call.run content settings).heardBy (.passed Level.debug.rank)).2) ∧
    call.run content (settings.withTelemetry settings.telemetry) = call.run content settings ∧
    ∀ logger : Logger,
      ((call.run content (settings.withTelemetry false)).heardBy logger).1 =
        ((call.run content (settings.withTelemetry true)).heardBy logger).1.map
          (fun o => { o with records := [] }) ∧
      ((call.run content (settings.withTelemetry false)).heardBy logger).2 =
        ((call.run content (settings.withTelemetry true)).heardBy logger).2.filter
          (·.level != .info) := by
  refine ⟨fun logger => ?_, call.run_withTelemetry_self content settings, fun logger => ?_⟩
  · have htells := (call.run_tells content settings).heard
    rw [htells logger, htells .silent]
    exact ⟨rfl, rfl⟩
  · have hoff := (call.run_tells content (settings.withTelemetry false)).heard logger
    have hon := (call.run_tells content (settings.withTelemetry true)).heard logger
    obtain ⟨hvalue, htrace⟩ := call.run_muted content settings
    rw [hoff, hon]
    refine ⟨hvalue, ?_⟩
    show logger.select (call.run content (settings.withTelemetry false)).trace = _
    rw [htrace]
    exact List.filter_comm _ _ _

end Emend
