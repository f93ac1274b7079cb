import Emend.Apply.Blocks
import Emend.Apply.Hunks
import Emend.Edit.Dialect
import Emend.Edit.Wrapping

/-!
# Applying an edit text

An edit text is applied in the dialect it is in, which the caller names or which is told from the
text once its wrapping is taken off. What a unit fails at is told in the outcome; an edit text that
cannot be read, a dialect that is unknown and settings that are refused are errors of the call.
-/

namespace Emend

/-- Why a call was refused. -/
inductive EditError where
  /-- The edit text cannot be read. -/
  | parse (error : ParseError)
  /-- The dialect is unknown. -/
  | dialect (error : UnknownDialect)
  /-- The settings are refused. -/
  | option (error : OptionError)

/-- What is said about a refused call. -/
def EditError.message : EditError → String
  | .parse error => error.message
  | .dialect error => error.message
  | .option error => error.message

namespace Edit

/-- The outcome of work that needs options, or why they are refused. -/
def withOptions (options : Except OptionError Options) (work : Options → Traced Outcome) :
    Traced (Except EditError Outcome) :=
  match options with
  | .error e => pure (.error (.option e))
  | .ok options => do
    let outcome ← work options
    pure (.ok outcome)

/-- The outcome of applying an edit text of blocks. The text is read before the options. -/
def applyBlocks (content edit : Text) (options : Except OptionError Options) :
    Traced (Except EditError Outcome) := do
  match ← EditBlock.read edit with
  | .error e => pure (.error (.parse e))
  | .ok blocks => withOptions options fun options => EditBlock.applyAll options content blocks

/-- The outcome of applying an edit text of hunks. The text is read before the options. -/
def applyHunks (content edit : Text) (options : Except OptionError Options) :
    Traced (Except EditError Outcome) := do
  match ← ParsedDiff.read edit with
  | .error e => pure (.error (.parse e))
  | .ok diff =>
    withOptions options fun options => Hunk.applyAll options content diff.hunks diff.warnings

/-- The outcome of applying an edit text of a dialect. -/
def applyIn (dialect : Dialect) (content edit : Text) (options : Except OptionError Options) :
    Traced (Except EditError Outcome) :=
  match dialect with
  | .blocks => applyBlocks content edit options
  | .hunks => applyHunks content edit options

/-- The outcome of applying an edit text of a dialect with settings, which are read first. -/
def applyWith (dialect : Dialect) (content edit : Text) (settings : Value) :
    Traced (Except EditError Outcome) :=
  match Settings.ofValue settings with
  | .error e => pure (.error (.option e))
  | .ok given =>
    match given.options with
    | .error e => pure (.error (.option e))
    | .ok options => do
      let strict := String.ofList given.strict.plain
      Traced.say .debug s!"Applying {dialect.name} edit (strict={strict})"
      applyIn dialect content edit (.ok options)

/-- The outcome of applying an edit text of a dialect that a value names. -/
def applyNamed (dialect : Value) (content edit : Text) (settings : Value) :
    Traced (Except EditError Outcome) :=
  match Dialect.ofValue dialect with
  | .error e => pure (.error (.dialect e))
  | .ok dialect => applyWith dialect content edit settings

/-- The outcome of applying an edit text of a dialect that it shows itself, once its wrapping is
taken off. -/
def applyAuto (content edit : Text) (settings : Value) : Traced (Except EditError Outcome) :=
  let edit := Wrapping.unwrap edit
  match Dialect.detect edit with
  | .error e => pure (.error (.dialect e))
  | .ok dialect => do
    Traced.say .debug s!"Detected {dialect.name} edit text"
    applyWith dialect content edit settings

end Edit

/-- What is applied by a call. -/
inductive Call where
  /-- Blocks. -/
  | blocks (units : List EditBlock)
  /-- Hunks, with what was odd before. -/
  | hunks (units : List Hunk) (warnings : List Warning)
  /-- An edit text of blocks. -/
  | blockText (edit : Text)
  /-- An edit text of hunks. -/
  | hunkText (edit : Text)
  /-- An edit text of a dialect that a value names. -/
  | named (dialect : Value) (edit : Text)
  /-- An edit text of the dialect that it shows. -/
  | auto (edit : Text)

/-- The outcome of a call on a document, with settings. -/
def Call.run (content : Text) (settings : Value) : Call → Traced (Except EditError Outcome)
  | .blocks units =>
    Edit.withOptions (Options.ofValue settings) fun options =>
      EditBlock.applyAll options content units
  | .hunks units warnings =>
    Edit.withOptions (Options.ofValue settings) fun options =>
      Hunk.applyAll options content units warnings
  | .blockText edit => Edit.applyBlocks content edit (Options.ofValue settings)
  | .hunkText edit => Edit.applyHunks content edit (Options.ofValue settings)
  | .named dialect edit => Edit.applyNamed dialect content edit settings
  | .auto edit => Edit.applyAuto content edit settings

end Emend
