import Emend.Hunk.Basic
import Emend.Hunk.DiffLine
import Emend.Text.Blank
import Emend.Text.Digit

/-!
# Headers of a diff

A hunk header is numbered, `@@ -a,b +c,d @@` with anything after it, where a count that is left out
is one, or bare: `@@`, possibly twice, and spaces. A file header names a path, of which one leading
`a/` or `b/` is dropped; the path of the null device means that there is no file.
-/

namespace Emend

namespace Hunk

/-- The start and the count of one side, and what follows them. -/
def side? (t : Text) : Option (Nat × Nat × Text) :=
  match Text.number? t with
  | none => none
  | some (start, ',' :: rest) =>
    match Text.number? rest with
    | some (count, rest) => some (start, count, rest)
    | none => none
  | some (start, rest) => some (start, 1, rest)

/-- What follows the word, a start and a count, with both. -/
def sideAfter? (word t : Text) : Option (Nat × Nat × Text) := (Text.after word t).bind side?

/-- A hunk without lines from a numbered header. -/
def ofNumbered? (index : Nat) (line : Text) : Option Hunk :=
  match sideAfter? ['@', '@', ' ', '-'] line with
  | none => none
  | some (oldStart, oldCount, rest) =>
    match sideAfter? [' ', '+'] rest with
    | none => none
    | some (newStart, newCount, rest) =>
      match Text.after [' ', '@', '@'] rest with
      | none => none
      | some rest =>
        some ⟨index, some oldStart, oldCount, some newStart, newCount, [],
          line.take (line.length - rest.length), false, false⟩

/-- Whether a line is a bare header. -/
def isBare (line : Text) : Bool :=
  match Text.after DiffLine.hunkWord line with
  | none => false
  | some rest =>
    let rest := Text.stripStart rest
    match Text.after DiffLine.hunkWord rest with
    | some rest => rest.isBlank
    | none => rest.isEmpty

/-- A hunk without lines from a header of either kind. -/
def ofHeader? (index : Nat) (line : Text) : Option Hunk :=
  match ofNumbered? index line with
  | some h => some h
  | none =>
    if isBare line then
      some ⟨index, none, 0, none, 0, [], DiffLine.hunkWord, false, false⟩
    else none

end Hunk

namespace DiffLine

/-- The path that stands for a missing file. -/
def nullDevice : Text := "/dev/null".toList

/-- The path that a file header names, up to a tab, with slashes between its parts. -/
def path? (line : Text) : Option Text :=
  let path := Text.strip ((line.drop 4).takeWhile (· != '\t'))
  if path.isEmpty || path == nullDevice then none
  else
    let path :=
      match path with
      | 'a' :: '/' :: rest => rest
      | 'b' :: '/' :: rest => rest
      | path => path
    some (path.map fun c => if c = '\\' then '/' else c)

end DiffLine

end Emend
