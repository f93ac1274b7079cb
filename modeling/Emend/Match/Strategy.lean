import Emend.Setting.Value
import Emend.Text.Blank

/-!
# Matching strategies

A search text is looked for in a document by one of five strategies. They are named in settings,
where the words of a name may be joined by a low line, by a hyphen or by a capital letter, and
spaces around the name and the case of its letters do not matter otherwise.
-/

namespace Emend

/-- A way to look for a search text in a document. -/
inductive Strategy where
  /-- The same characters. -/
  | exact
  /-- The same lines up to the spaces around them. -/
  | lineTrimmed
  /-- The same words, whatever spaces stand between them. -/
  | whitespaceNormalized
  /-- The same lines at another indentation. -/
  | indentationAgnostic
  /-- Similar lines. -/
  | fuzzy
  deriving DecidableEq, Repr

namespace Strategy

/-- All strategies, from the strictest to the loosest. -/
def all : List Strategy :=
  [.exact, .lineTrimmed, .whitespaceNormalized, .indentationAgnostic, .fuzzy]

/-- The name of a strategy. -/
def name : Strategy → String
  | .exact => "exact"
  | .lineTrimmed => "line_trimmed"
  | .whitespaceNormalized => "whitespace_normalized"
  | .indentationAgnostic => "indentation_agnostic"
  | .fuzzy => "fuzzy"

/-- Whether a strategy compares whole lines, so that its matches start and end with lines. -/
def isLineBased : Strategy → Bool
  | .lineTrimmed | .indentationAgnostic | .fuzzy => true
  | .exact | .whitespaceNormalized => false

/-- A name with a low line between each small letter and the capital after it. -/
def splitCapitals : Text → Text
  | a :: b :: t =>
    if a.isLower && b.isUpper then a :: '_' :: splitCapitals (b :: t)
    else a :: splitCapitals (b :: t)
  | t => t

/-- A name as the table of strategies has it. No name holds a character that is the small form of
one beyond ASCII, so that only the capitals of ASCII need to be made small. -/
def canonicalName (t : Text) : Text :=
  ((splitCapitals t).strip.map Char.toLower).map fun c => if c = '-' then '_' else c

/-- The strategy that a name stands for. -/
def ofName? (t : Text) : Option Strategy :=
  all.find? fun s => s.name.toList = canonicalName t

end Strategy

/-- A value that names no strategy. -/
structure UnknownStrategy where
  /-- The value as it was given. -/
  given : Value

/-- What is said about a value that names no strategy. -/
def UnknownStrategy.message (e : UnknownStrategy) : String :=
  s!"unknown matching strategy: {String.ofList e.given.shown}"

/-- The strategy that a value names. -/
def Strategy.ofValue (v : Value) : Except UnknownStrategy Strategy :=
  match Strategy.ofName? v.plain with
  | some s => .ok s
  | none => .error ⟨v⟩

end Emend
