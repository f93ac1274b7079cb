import Emend.Number.Decimal
import Emend.Text.Quoted

/-!
# Values of settings

Callers hand over settings as loosely as a configuration file holds them, so that a setting is a
value of one dynamic type. It can be shown as a literal (`shown`, with texts between quotes) or as
it reads in a sentence (`plain`), it counts as true or false, and its type has a name.
-/

namespace Emend

/-- A value that a caller gives for a setting. -/
inductive Value where
  /-- No value. -/
  | null
  /-- A truth value. -/
  | bool (b : Bool)
  /-- A whole number. -/
  | int (n : Int)
  /-- A binary floating-point number. -/
  | float (x : Binary64)
  /-- A text. -/
  | text (t : Text)
  /-- A list of values. -/
  | list (items : List Value)
  /-- Keys with their values, in order. -/
  | mapping (entries : List (Text × Value))

instance : Inhabited Value := ⟨.null⟩

namespace Value

/-- The digits of a whole number, with a minus sign if it is negative. -/
def intText (n : Int) : Text :=
  if n < 0 then '-' :: digitsText n.natAbs else digitsText n.natAbs

mutual

/-- A value as a literal. -/
def shown : Value → Text
  | .null => "None".toList
  | .bool true => "True".toList
  | .bool false => "False".toList
  | .int n => intText n
  | .float x => x.text
  | .text t => t.quoted
  | .list items => '[' :: shownItems items ++ [']']
  | .mapping entries => '\x7b' :: shownEntries entries ++ ['\x7d']

/-- Values as literals, with commas between them. -/
def shownItems : List Value → Text
  | [] => []
  | [v] => shown v
  | v :: w :: vs => shown v ++ [',', ' '] ++ shownItems (w :: vs)

/-- Keys and values as literals, with commas between them. -/
def shownEntries : List (Text × Value) → Text
  | [] => []
  | [(k, v)] => k.quoted ++ [':', ' '] ++ shown v
  | (k, v) :: e :: es => k.quoted ++ [':', ' '] ++ shown v ++ [',', ' '] ++ shownEntries (e :: es)

end

/-- A value as it reads in a sentence: a text stands for itself. -/
def plain : Value → Text
  | .text t => t
  | v => v.shown

/-- Whether a value counts as true: zero, what is empty and the missing value do not. -/
def isTrue : Value → Bool
  | .null => false
  | .bool b => b
  | .int n => n != 0
  | .float x => x.isNonzero
  | .text t => !t.isEmpty
  | .list items => !items.isEmpty
  | .mapping entries => !entries.isEmpty

/-- The name of the type of a value. -/
def typeName : Value → String
  | .null => "NoneType"
  | .bool _ => "bool"
  | .int _ => "int"
  | .float _ => "float"
  | .text _ => "str"
  | .list _ => "list"
  | .mapping _ => "dict"

end Value

end Emend
