/-!
# Binary floating-point numbers

Thresholds and confidences are numbers of the binary64 format. A finite one is kept as its sign and
the exact rational it stands for, so that two of them compare as rationals do. `nearest` rounds a
rational to the grid of the format, a half to the even neighbour: the grid of a rational has its
`unit` as step, which is a power of two that leaves 53 binary digits, and `2 ^ (-1074)` at least.
-/

namespace Emend

/-- The whole number nearest to `x`; of two equally near ones the even one. -/
def roundEven (x : Rat) : Int :=
  let low := x.floor
  let rest := x - low
  if rest < 1 / 2 then low
  else if 1 / 2 < rest then low + 1
  else if low % 2 = 0 then low
  else low + 1

/-- The largest `e` with `2 ^ e ≤ x`, for a positive `x`. -/
def floorLog2 (x : Rat) : Int :=
  let e : Int := (x.num.toNat.log2 : Int) - x.den.log2
  if (2 : Rat) ^ e ≤ x then e else e - 1

/-- The exponent of the step of the binary64 grid around a positive `x`. -/
def unitExponent (x : Rat) : Int := max (floorLog2 x - 52) (-1074)

/-- The step of the binary64 grid around a positive `x`. -/
def unit (x : Rat) : Rat := (2 : Rat) ^ unitExponent x

/-- The number of the binary64 grid nearest to `x`, which is not negative; of two equally near ones
the one that is an even multiple of the step. The grid has no largest number here. -/
def nearest (x : Rat) : Rat :=
  if x = 0 then 0 else roundEven (x / unit x) * unit x

/-- A number of the binary64 format. -/
inductive Binary64 where
  /-- A finite number, of which zero has both signs. -/
  | finite (negative : Bool) (magnitude : Rat)
  /-- An infinity. -/
  | infinite (negative : Bool)
  /-- No number. -/
  | nan
  deriving DecidableEq

namespace Binary64

/-- The binary64 number nearest to a magnitude with a sign; from `2 ^ 1024` on it is an infinity. -/
def ofMagnitude (negative : Bool) (x : Rat) : Binary64 :=
  if nearest x < (2 : Rat) ^ (1024 : Int) then .finite negative (nearest x)
  else .infinite negative

/-- The binary64 number nearest to a rational. -/
def ofRat (x : Rat) : Binary64 := ofMagnitude (x < 0) x.abs

/-- The binary64 number nearest to `digits * 10 ^ exponent` with a sign. Exponents so large or so
small that the answer is an infinity or a zero are told apart before the power is taken. -/
def ofDecimal (negative : Bool) (digits : Nat) (exponent : Int) : Binary64 :=
  let size : Int := (Nat.toDigits 10 digits).length
  if digits = 0 ∨ exponent + size < -400 then .finite negative 0
  else if 400 < exponent then .infinite negative
  else ofMagnitude negative (digits * (10 : Rat) ^ exponent)

/-- The exact value of a finite number. -/
def toRat? : Binary64 → Option Rat
  | .finite negative x => some (if negative then -x else x)
  | _ => none

/-- Whether a rational reaches a number as a threshold. Nothing reaches the threshold that is no
number. -/
def reachedBy (x : Rat) : Binary64 → Bool
  | .finite negative t => (if negative then -t else t) ≤ x
  | .infinite negative => negative
  | .nan => false

/-- Whether a number is one from zero to one. -/
def inUnitInterval : Binary64 → Bool
  | .finite negative x => (x == 0 || !negative) && x ≤ 1
  | _ => false

/-- Whether a number is other than zero. -/
def isNonzero : Binary64 → Bool
  | .finite _ x => x != 0
  | _ => true

/-- The bit of weight `2 ^ 52`: the leading bit of a significand, with the exponent above it. -/
def leadingBit : Nat := 0x10000000000000

/-- The bit pattern of a sign. -/
def signBits (negative : Bool) : Nat := if negative then 0x8000000000000000 else 0

/-- The bit pattern of a magnitude without its sign bit: a biased exponent of eleven bits above 52
bits of the significand, whose leading bit is left out unless the exponent is the smallest. -/
def magnitudeBits (x : Rat) : Nat :=
  if x = 0 then 0
  else
    let significand := (x / unit x).floor.toNat
    if significand < leadingBit then significand
    else (unitExponent x + 1075).toNat * leadingBit + (significand - leadingBit)

/-- The bit pattern of a number. -/
def bits : Binary64 → Nat
  | .finite negative x => signBits negative + magnitudeBits x
  | .infinite negative => signBits negative + 0x7FF * leadingBit
  | .nan => 0x7FF * leadingBit + leadingBit / 2

end Binary64

end Emend
