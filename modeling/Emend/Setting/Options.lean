import Emend.Match.Search
import Emend.Number.Numeral

/-!
# Options of a call

A call takes its settings from a mapping whose keys may be written in two ways; a key that is given
twice has its last value. Unknown keys are refused before any value is looked at. Values are read
as loosely as they are meant: a flag is what counts as true, a number may be a numeral, and one
name of a strategy may stand for a list of them.
-/

namespace Emend

/-- How an edit is applied. -/
structure Options where
  /-- Whether the call stops at the first unit that fails and leaves the document as it was. -/
  strict : Bool
  /-- Whether the outcome tells where each applied unit was found. -/
  telemetry : Bool
  /-- The strategies for search texts, in the order in which they are tried. -/
  strategies : List Strategy
  /-- The least similarity that the fuzzy strategy accepts. -/
  threshold : Binary64
  /-- How many context lines of a hunk may differ. -/
  maxFuzz : Nat
  deriving DecidableEq

/-- The options of a call without settings. -/
def Options.default : Options := ⟨false, false, Strategy.all, Match.defaultThreshold, 2⟩

/-- Why settings are refused. -/
inductive OptionError where
  /-- The settings are no mapping but of another type. -/
  | notAMapping (typeName : String)
  /-- There is no setting of that name. -/
  | unknownKey (key : Text)
  /-- A value names no strategy. -/
  | strategy (error : UnknownStrategy)
  /-- A value of that type holds no names of strategies. -/
  | noStrategyList (typeName : String)
  /-- There are no strategies. -/
  | noStrategies
  /-- A value of that type is no threshold. -/
  | thresholdType (typeName : String)
  /-- A text writes no threshold. -/
  | thresholdText (text : Text)
  /-- A whole number is too large for a threshold. -/
  | thresholdTooLarge
  /-- A threshold is not from zero to one. -/
  | thresholdRange (given : Value)
  /-- A value of that type is no fuzz. -/
  | fuzzType (typeName : String)
  /-- A text writes no fuzz. -/
  | fuzzText (text : Text)
  /-- A fuzz is an infinity. -/
  | fuzzInfinite
  /-- A fuzz is no number. -/
  | fuzzNaN
  /-- A fuzz is negative. -/
  | fuzzRange (given : Value)

/-- What is said about refused settings. -/
def OptionError.message : OptionError → String
  | .notAMapping typeName => s!"options must be ApplyOptions, a mapping or None, not {typeName}"
  | .unknownKey key => s!"unknown option: {String.ofList key.quoted}"
  | .strategy error => error.message
  | .noStrategyList typeName => s!"'{typeName}' object is not iterable"
  | .noStrategies => "matching_strategies must name at least one strategy"
  | .thresholdType typeName =>
    s!"float() argument must be a string or a real number, not '{typeName}'"
  | .thresholdText text => s!"could not convert string to float: {String.ofList text.quoted}"
  | .thresholdTooLarge => "int too large to convert to float"
  | .thresholdRange given =>
    s!"fuzzy_threshold must be within [0, 1], got {String.ofList given.shown}"
  | .fuzzType typeName =>
    s!"int() argument must be a string, a bytes-like object or a real number, not '{typeName}'"
  | .fuzzText text =>
    let shown := String.ofList (text.quoted.take 200)
    s!"invalid literal for int() with base 10: {shown}"
  | .fuzzInfinite => "cannot convert float infinity to integer"
  | .fuzzNaN => "cannot convert float NaN to integer"
  | .fuzzRange given => s!"max_fuzz must be >= 0, got {String.ofList given.shown}"

/-- The settings of a call. -/
inductive Setting where
  /-- Whether the call is strict. -/
  | strict
  /-- Whether the outcome tells where units were found. -/
  | telemetry
  /-- The strategies for search texts. -/
  | strategies
  /-- The least similarity that is accepted. -/
  | threshold
  /-- How many context lines may differ. -/
  | maxFuzz
  deriving DecidableEq, Repr

namespace Setting

/-- The names of the settings. -/
def names : List (String × Setting) :=
  [("strict", .strict), ("enable_telemetry", .telemetry), ("enableTelemetry", .telemetry),
    ("matching_strategies", .strategies), ("matchingStrategies", .strategies),
    ("fuzzy_threshold", .threshold), ("fuzzyThreshold", .threshold), ("max_fuzz", .maxFuzz),
    ("maxFuzz", .maxFuzz)]

/-- The setting of a name. -/
def ofName? (key : Text) : Option Setting :=
  (names.find? fun n => n.1.toList = key).map (·.2)

end Setting

/-- Settings as they were given, in order. -/
abbrev Settings := List (Setting × Value)

namespace Settings

/-- The settings of a mapping. -/
def ofEntries (entries : List (Text × Value)) : Except OptionError Settings :=
  entries.mapM fun e =>
    match Setting.ofName? e.1 with
    | some s => .ok (s, e.2)
    | none => .error (.unknownKey e.1)

/-- The settings that a value holds; no value holds none. -/
def ofValue : Value → Except OptionError Settings
  | .null => .ok []
  | .mapping entries => ofEntries entries
  | v => .error (.notAMapping v.typeName)

/-- The last value of a setting. -/
def value? (settings : Settings) (s : Setting) : Option Value :=
  (settings.reverse.find? (·.1 = s)).map (·.2)

/-- The value of the setting that makes a call strict, as it was given. -/
def strict (settings : Settings) : Value := (settings.value? .strict).getD (.bool false)

/-- The strategies that a value names: one of them, or each of a list or of the keys of a
mapping. -/
def strategies : Value → Except OptionError (List Strategy)
  | .text t => named [.text t]
  | .list items => named items
  | .mapping entries => named (entries.map fun e => .text e.1)
  | v => .error (.noStrategyList v.typeName)
where
  /-- The strategies that the values name, of which there must be one. -/
  named (vs : List Value) : Except OptionError (List Strategy) :=
    match vs.mapM Strategy.ofValue with
    | .ok [] => .error .noStrategies
    | .ok (s :: ss) => .ok (s :: ss)
    | .error e => .error (.strategy e)

/-- The binary64 number that a value stands for. -/
def number : Value → Except OptionError Binary64
  | .bool b => .ok (.ofRat (if b then 1 else 0))
  | .int n =>
    match Binary64.ofRat n with
    | .infinite _ => .error .thresholdTooLarge
    | x => .ok x
  | .float x => .ok x
  | .text t =>
    match Numeral.readBinary64 t with
    | some x => .ok x
    | none => .error (.thresholdText t)
  | v => .error (.thresholdType v.typeName)

/-- The threshold that a value stands for. -/
def threshold (v : Value) : Except OptionError Binary64 :=
  (number v).bind fun x => if x.inUnitInterval then .ok x else .error (.thresholdRange v)

/-- The whole number that a value stands for; fractions are cut off. -/
def wholeNumber : Value → Except OptionError Int
  | .bool b => .ok (if b then 1 else 0)
  | .int n => .ok n
  | .float (.finite negative x) => .ok (if negative then -x.floor else x.floor)
  | .float (.infinite _) => .error .fuzzInfinite
  | .float .nan => .error .fuzzNaN
  | .text t =>
    match Numeral.readInt t with
    | some n => .ok n
    | none => .error (.fuzzText t)
  | v => .error (.fuzzType v.typeName)

/-- The fuzz that a value stands for. -/
def maxFuzz (v : Value) : Except OptionError Nat :=
  (wholeNumber v).bind fun n => if n < 0 then .error (.fuzzRange v) else .ok n.toNat

/-- What a reader makes of a setting, or the default where it is not given. -/
def read {α : Type} (settings : Settings) (s : Setting) (default : α)
    (reader : Value → Except OptionError α) : Except OptionError α :=
  match settings.value? s with
  | some v => reader v
  | none => .ok default

/-- The options that the settings make. The strategies are read before the threshold, and that
before the fuzz. -/
def options (settings : Settings) : Except OptionError Options := do
  let strategies ← settings.read .strategies Options.default.strategies strategies
  let threshold ← settings.read .threshold Options.default.threshold threshold
  let maxFuzz ← settings.read .maxFuzz Options.default.maxFuzz maxFuzz
  let telemetry := (settings.value? .telemetry).map Value.isTrue
  pure ⟨settings.strict.isTrue, telemetry.getD Options.default.telemetry, strategies, threshold,
    maxFuzz⟩

end Settings

/-- The options that a value holds as settings. -/
def Options.ofValue (v : Value) : Except OptionError Options :=
  (Settings.ofValue v).bind Settings.options

end Emend
