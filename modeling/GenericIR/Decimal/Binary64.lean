import GenericIR.Decimal

/-! Binary floating-point numbers of 64 bits, and their text with six decimal places.
A finite number is a whole number of the smallest positive one, `2 ^ (-1074)`, so its text is
computed without rounding anything before the last step. -/
namespace GenericIR

structure Binary64 where
  bits : UInt64
  deriving DecidableEq, Repr

namespace Binary64

abbrev twoTo (n : Nat) : Nat := Nat.pow 2 n

def signBit (x : Binary64) : Bool :=
  decide (twoTo 63 ≤ x.bits.toNat)

def exponent (x : Binary64) : Nat :=
  x.bits.toNat / twoTo 52 % twoTo 11

def fraction (x : Binary64) : Nat :=
  x.bits.toNat % twoTo 52

/-- The absolute value; a finite one counts multiples of `2 ^ (-1074)`. -/
inductive Magnitude where
  | finite (units : Nat)
  | infinite
  | nan
  deriving DecidableEq, Repr

def magnitude (x : Binary64) : Magnitude :=
  if x.exponent = 0 then .finite x.fraction
  else if x.exponent < 2047 then .finite ((twoTo 52 + x.fraction) * twoTo (x.exponent - 1))
  else if x.fraction = 0 then .infinite
  else .nan

/-- The sign bit counts for everything but zero, also for what is no number. -/
def isNegative (x : Binary64) : Bool :=
  x.signBit && decide (x.magnitude ≠ .finite 0)

/-- A finite magnitude in millionths. -/
def millionths (units : Nat) : Nat :=
  Decimal.roundDiv (units * 1000000) (twoTo 1074)

def Magnitude.print : Magnitude → Text
  | .finite units =>
    Decimal.digits (millionths units / 1000000) ++ '.' ::
      Decimal.padded 6 (millionths units % 1000000)
  | .infinite => "inf".toList
  | .nan => "nan".toList

def print (x : Binary64) : Text :=
  (if x.isNegative then ['-'] else []) ++ x.magnitude.print

end Binary64

end GenericIR
