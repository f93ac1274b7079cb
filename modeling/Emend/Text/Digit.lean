import Emend.Text.Basic

/-!
# Decimal digits

The numbers of a hunk header and of a textual setting may be written in the decimal digits of any
script. Unicode encodes each set of ten in order, so that the table of their zeros says which
characters are digits and what they are worth.
-/

namespace Emend.Text

/-- The zero of each set of decimal digits. -/
def digitZeros : List Nat :=
  [0x30, 0x660, 0x6F0, 0x7C0, 0x966, 0x9E6, 0xA66, 0xAE6, 0xB66, 0xBE6, 0xC66, 0xCE6, 0xD66, 0xDE6,
   0xE50, 0xED0, 0xF20, 0x1040, 0x1090, 0x17E0, 0x1810, 0x1946, 0x19D0, 0x1A80, 0x1A90, 0x1B50,
   0x1BB0, 0x1C40, 0x1C50, 0xA620, 0xA8D0, 0xA900, 0xA9D0, 0xA9F0, 0xAA50, 0xABF0, 0xFF10, 0x104A0,
   0x10D30, 0x11066, 0x110F0, 0x11136, 0x111D0, 0x112F0, 0x11450, 0x114D0, 0x11650, 0x116C0,
   0x11730, 0x118E0, 0x11950, 0x11C50, 0x11D50, 0x11DA0, 0x16A60, 0x16AC0, 0x16B50, 0x1D7CE,
   0x1D7D8, 0x1D7E2, 0x1D7EC, 0x1D7F6, 0x1E140, 0x1E2F0, 0x1E950, 0x1FBF0]

/-- What a decimal digit is worth; other characters are worth nothing. -/
def digitValue? (c : Char) : Option Nat :=
  (digitZeros.find? fun z => z ≤ c.toNat && c.toNat ≤ z + 9).map (c.toNat - ·)

/-- Whether a character is a decimal digit of some script. -/
def isDigit (c : Char) : Bool := (digitValue? c).isSome

/-- The number that digits write, in base ten; characters that are no digits are left out. -/
def digitsValue (t : Text) : Nat :=
  (t.filterMap digitValue?).foldl (fun n d => n * 10 + d) 0

/-- The number that a text starts with and what follows it, if it starts with a digit. -/
def number? (t : Text) : Option (Nat × Text) :=
  if (t.takeWhile isDigit).isEmpty then none
  else some (digitsValue (t.takeWhile isDigit), t.dropWhile isDigit)

end Emend.Text
