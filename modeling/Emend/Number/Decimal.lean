import Emend.Number.Binary64
import Emend.Text.Basic

/-!
# Decimal text of a number

Two ways to write a number in base ten. `fixed` writes a given count of places and rounds the exact
value, a half to the even digit. `Binary64.text` writes the fewest digits that read back as the
number: on the decimal grids of 1, 2, … 17 digits it tries the two neighbours of the value, and the
first grid on which one of them rounds to the value wins, the nearer of two such neighbours.
-/

namespace Emend

/-- The digits of a number in base ten. -/
def digitsText (n : Nat) : Text := Nat.toDigits 10 n

/-- The digits of a number in base ten, with zeros in front up to `width` digits. -/
def paddedDigits (width n : Nat) : Text :=
  List.replicate (width - (digitsText n).length) '0' ++ digitsText n

/-- A number that is not negative with `places` decimal places, rounded from its exact value. -/
def fixed (places : Nat) (x : Rat) : Text :=
  let digits := paddedDigits (places + 1) (roundEven (x * (10 : Rat) ^ (places : Int))).toNat
  let whole := digits.length - places
  digits.take whole ++ '.' :: digits.drop whole

/-- The largest `e` with `10 ^ e ≤ x`, for a positive `x`. -/
def floorLog10 (x : Rat) : Int :=
  let e : Int := ((digitsText x.num.toNat).length : Int) - (digitsText x.den).length
  if (10 : Rat) ^ e ≤ x then e else e - 1

/-- The point of the grid of multiples of `10 ^ k` that is nearest to `x` among its two neighbours
there that round to `x`, as a multiple, if there is one. -/
def readsBackOn (k : Int) (x : Rat) : Option Nat :=
  let y := x / (10 : Rat) ^ k
  let low := y.floor.toNat
  let reads := fun n : Nat => decide (nearest (n * (10 : Rat) ^ k) = x)
  match reads low, reads (low + 1) with
  -- Both neighbours read back, so the nearer one does; a half goes to the even one.
  | true, true => some (roundEven y).toNat
  | true, false => some low
  | false, true => some (low + 1)
  | false, false => none

/-- The fewest decimal digits that round to a positive `x`, as a number and its power of ten. -/
def shortest (x : Rat) : Nat × Int :=
  let e := floorLog10 x
  ((List.range 17).findSome? fun i : Nat =>
    (readsBackOn (e - i) x).map (·, e - (i : Int))).getD (0, 0)

/-- Digits without the zeros at their end, and how many were left out. -/
def trimZeros (digits : Text) : Text × Nat :=
  let kept := (digits.reverse.dropWhile (· == '0')).reverse
  (kept, digits.length - kept.length)

/-- The text of a positive number from its shortest digits: positional from `0.0001` up to below
`10 ^ 16`, with a decimal point in any case, and otherwise with an exponent of a sign and at least
two digits. -/
def positiveText (x : Rat) : Text :=
  let (n, k) := shortest x
  let (digits, dropped) := trimZeros (digitsText n)
  let point : Int := digits.length + dropped + k
  if -4 < point ∧ point ≤ 16 then
    if point ≤ 0 then
      '0' :: '.' :: List.replicate (-point).toNat '0' ++ digits
    else
      let whole := digits.take point.toNat
      let rest := digits.drop point.toNat
      whole ++ List.replicate (point.toNat - whole.length) '0' ++
        '.' :: (if rest.isEmpty then ['0'] else rest)
  else
    let exponent := point - 1
    digits.take 1 ++ (if digits.length ≤ 1 then [] else '.' :: digits.drop 1) ++
      'e' :: (if exponent < 0 then '-' else '+') :: paddedDigits 2 exponent.natAbs

/-- The text of a binary64 number. -/
def Binary64.text : Binary64 → Text
  | .finite negative x =>
    (if negative then ['-'] else []) ++ (if x = 0 then "0.0".toList else positiveText x)
  | .infinite negative => (if negative then ['-'] else []) ++ "inf".toList
  | .nan => "nan".toList

end Emend
