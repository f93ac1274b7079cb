import Emend.Text.Basic

/-!
# Loggers and traced work

A logger listens to the records of its own level and above. Work is handed the logger of the call
and tells it what it does (`Traced`): a record is kept if the logger listens to its level, and work
may ask for that before it puts a long record together. `value` and `trace` are what the work gives
and tells where somebody listens to everything; that neither depends on who listens is proved and
not built in.
-/

namespace Emend

/-- How much a record matters. -/
inductive Level where
  /-- A step of the work. -/
  | debug
  /-- A unit that was applied. -/
  | info
  /-- A unit that could not be applied. -/
  | warning
  deriving DecidableEq, Repr

namespace Level

/-- The number by which levels compare with the level of a logger. -/
def rank : Level → Int
  | .debug => 10
  | .info => 20
  | .warning => 30

/-- The name of a level in a log. -/
def name : Level → String
  | .debug => "DEBUG"
  | .info => "INFO"
  | .warning => "WARNING"

end Level

/-- One line of a log. -/
structure Record where
  /-- How much the record matters. -/
  level : Level
  /-- What the record says. -/
  message : String
  deriving DecidableEq, Repr

/-- Who listens to a computation. -/
inductive Logger where
  /-- Nobody. -/
  | silent
  /-- A logger that the caller brings, with its level. -/
  | passed (level : Int)
  /-- A logger that the library looks up by its name, with the level it was given. -/
  | named (name : Text) (level : Int)
  deriving DecidableEq, Repr

namespace Logger

/-- The logger of one call: the caller's own if there is one, else one of the given name if logging
is enabled, with `fallback` in place of a name that is missing or empty. -/
def choose (passed : Option Int) (enabled : Bool) (name : Option Text) (fallback : Text)
    (level : Int) : Logger :=
  match passed with
  | some level => .passed level
  | none =>
    if !enabled then .silent
    else
      match name with
      | some (c :: t) => .named (c :: t) level
      | _ => .named fallback level

/-- The lowest rank that a logger listens to. A named logger of level zero takes the level that
loggers have from the start, which lets warnings through. -/
def threshold? : Logger → Option Int
  | .silent => none
  | .passed level => some level
  | .named _ level => some (if level = 0 then Level.warning.rank else level)

/-- Whether a logger listens to records of a level. -/
def listensTo (logger : Logger) (level : Level) : Bool :=
  match logger.threshold? with
  | some rank => rank ≤ level.rank
  | none => false

/-- The records of a trace that a logger keeps. -/
def select (logger : Logger) (trace : List Record) : List Record :=
  trace.filter fun record => logger.listensTo record.level

/-- A logger that listens to everything. -/
def attentive : Logger := .passed Level.debug.rank

@[simp] theorem listensTo_attentive (level : Level) : attentive.listensTo level = true := by
  cases level <;> rfl

@[simp] theorem select_attentive (trace : List Record) : attentive.select trace = trace :=
  List.filter_eq_self.mpr fun record _ => listensTo_attentive record.level

end Logger

/-- Work that gives a value and tells what it does, for whoever listens. -/
structure Traced (α : Type) where
  /-- The value, and the records that the logger keeps, in the order of the work. -/
  heardBy : Logger → α × List Record

namespace Traced

/-- The value. -/
def value {α : Type} (x : Traced α) : α := (x.heardBy .attentive).1

/-- All records, in the order of the work. -/
def trace {α : Type} (x : Traced α) : List Record := (x.heardBy .attentive).2

/-- A value that took no work. -/
protected def pure {α : Type} (value : α) : Traced α := ⟨fun _ => (value, [])⟩

/-- Work that goes on with the value of other work, for the same logger. -/
protected def bind {α β : Type} (x : Traced α) (f : α → Traced β) : Traced β :=
  ⟨fun logger =>
    let first := x.heardBy logger
    let second := (f first.1).heardBy logger
    (second.1, first.2 ++ second.2)⟩

instance : Monad Traced where
  pure := Traced.pure
  bind := Traced.bind

/-- Work that tells records. -/
def tell (records : List Record) : Traced Unit := ⟨fun logger => ((), logger.select records)⟩

/-- Work that tells one record. -/
def say (level : Level) (message : String) : Traced Unit := tell [⟨level, message⟩]

/-- Whether the logger listens to a level. -/
def listens (level : Level) : Traced Bool := ⟨fun logger => (logger.listensTo level, [])⟩

@[simp] theorem value_pure {α : Type} (a : α) : (pure a : Traced α).value = a := rfl

@[simp] theorem trace_pure {α : Type} (a : α) : (pure a : Traced α).trace = [] := rfl

@[simp] theorem value_bind {α β : Type} (x : Traced α) (f : α → Traced β) :
    (x >>= f).value = (f x.value).value := rfl

@[simp] theorem trace_bind {α β : Type} (x : Traced α) (f : α → Traced β) :
    (x >>= f).trace = x.trace ++ (f x.value).trace := rfl

@[simp] theorem value_tell (records : List Record) : (tell records).value = () := rfl

@[simp] theorem trace_tell (records : List Record) : (tell records).trace = records :=
  Logger.select_attentive records

@[simp] theorem value_say (level : Level) (message : String) : (say level message).value = () := rfl

@[simp] theorem trace_say (level : Level) (message : String) :
    (say level message).trace = [⟨level, message⟩] := trace_tell _

@[simp] theorem value_listens (level : Level) : (listens level).value = true :=
  Logger.listensTo_attentive level

@[simp] theorem trace_listens (level : Level) : (listens level).trace = [] := rfl

end Traced

end Emend
