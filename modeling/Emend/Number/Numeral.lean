import Emend.Number.Binary64
import Emend.Text.Digit
import Emend.Text.Blank

/-!
# Numerals

How a number is read from the text of a setting. Outer spaces are dropped, digits of any script
count, and a low line may stand between two digits. A whole numeral is a sign and digits. A
fractional one may also have a point, an exponent, or be the name of an infinity or of no number.
-/

namespace Emend.Numeral

/-- A character of a numeral in ASCII: digits of other scripts become ASCII digits, and spaces
beyond ASCII become the space. -/
def toAscii (c : Char) : Char :=
  if c.toNat < 127 then c
  else if Text.isSpace c then ' '
  else
    match Text.digitValue? c with
    | some d => Nat.digitChar d
    | none => '?'

/-- Whether a character is one of the six spaces of ASCII that a numeral may have around it. -/
def isOuterSpace (c : Char) : Bool := c == ' ' || (0x09 ≤ c.toNat && c.toNat ≤ 0x0D)

/-- The characters of a numeral in ASCII and without the spaces around it. -/
def clean (t : Text) : Text :=
  (((t.map toAscii).dropWhile isOuterSpace).reverse.dropWhile isOuterSpace).reverse

/-- Whether a character is an ASCII digit. -/
def isAsciiDigit (c : Char) : Bool := '0' ≤ c && c ≤ '9'

/-- The text without its low lines, if each of them stands between two digits. The flag says whether
a digit stands before. -/
def dropLowLines : Bool → Text → Option Text
  | _, [] => some []
  | afterDigit, c :: t =>
    if c = '_' then
      match t with
      | d :: _ => if afterDigit && isAsciiDigit d then dropLowLines false t else none
      | [] => none
    else (dropLowLines (isAsciiDigit c) t).map (c :: ·)

/-- The sign that a numeral may start with, and the rest: true for a minus sign. -/
def sign : Text → Bool × Text
  | '-' :: t => (true, t)
  | '+' :: t => (false, t)
  | t => (false, t)

/-- The digits a text starts with, and the rest. -/
def digits (t : Text) : Text × Text := (t.takeWhile isAsciiDigit, t.dropWhile isAsciiDigit)

/-- The whole number that a text writes. -/
def readInt (t : Text) : Option Int :=
  match dropLowLines false (clean t) with
  | none => none
  | some t =>
    let (negative, t) := sign t
    let (ds, rest) := digits t
    if ds.isEmpty || !rest.isEmpty then none
    else
      let n : Int := Text.digitsValue ds
      some (if negative then -n else n)

/-- The exponent that may follow the digits of a numeral, to the end of it. -/
def exponent : Text → Option Int
  | [] => some 0
  | e :: t =>
    if e = 'e' ∨ e = 'E' then
      let (negative, t) := sign t
      let (ds, rest) := digits t
      if ds.isEmpty || !rest.isEmpty then none
      else
        let n : Int := Text.digitsValue ds
        some (if negative then -n else n)
    else none

/-- The digits before and after the point of a numeral, and the rest. -/
def mantissa (t : Text) : Text × Text × Text :=
  let (whole, rest) := digits t
  match rest with
  | '.' :: rest => (whole, (digits rest).1, (digits rest).2)
  | _ => (whole, [], rest)

/-- The number that a text writes, rounded to the binary64 format. -/
def readBinary64 (t : Text) : Option Binary64 :=
  match dropLowLines false (clean t) with
  | none => none
  | some t =>
    let (negative, t) := sign t
    let name := t.map Char.toLower
    if name = "inf".toList ∨ name = "infinity".toList then some (.infinite negative)
    else if name = "nan".toList then some .nan
    else
      let (whole, part, rest) := mantissa t
      if whole.isEmpty && part.isEmpty then none
      else
        (exponent rest).map fun e =>
          Binary64.ofDecimal negative (Text.digitsValue (whole ++ part)) (e - part.length)

end Emend.Numeral
