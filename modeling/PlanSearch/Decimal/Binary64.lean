/-
Double-precision numbers, kept as their 64 bits.

Weights are written, compared and checked far more often than they are
computed with, and all of that is decided by the bits: sign, eleven bits
of exponent, fifty-two bits of fraction. Only sampling turns them into
machine floats.
-/
namespace PlanSearch

/-- A double-precision number by its bits. -/
structure Binary64 where
  bits : UInt64
  deriving DecidableEq, Repr, Inhabited

namespace Binary64

def ofFloat (x : Float) : Binary64 := ⟨x.toBits⟩

def toFloat (x : Binary64) : Float := Float.ofBits x.bits

/-- Whether the sign bit is set. -/
def isNegative (x : Binary64) : Bool := decide (x.bits.toNat / Nat.pow 2 63 = 1)

/-- The exponent field, biased by 1023. -/
def exponentField (x : Binary64) : Nat :=
  x.bits.toNat / Nat.pow 2 52 % Nat.pow 2 11

/-- The fraction field. -/
def fraction (x : Binary64) : Nat := x.bits.toNat % Nat.pow 2 52

def isNaN (x : Binary64) : Bool := x.exponentField == 2047 && x.fraction != 0

def isFinite (x : Binary64) : Bool := x.exponentField != 2047

def isZero (x : Binary64) : Bool := x.exponentField == 0 && x.fraction == 0

/-- Strictly below zero: negative zero is not, and neither is a NaN. -/
def isBelowZero (x : Binary64) : Bool := x.isNegative && !x.isZero && !x.isNaN

/-- Strictly above zero. -/
def isAboveZero (x : Binary64) : Bool := !x.isNegative && !x.isZero && !x.isNaN

/-- Equality of numbers: the two zeros are equal, and a NaN equals nothing. -/
def same (x y : Binary64) : Bool :=
  !x.isNaN && !y.isNaN && (x.bits == y.bits || (x.isZero && y.isZero))

instance : BEq Binary64 := ⟨same⟩

/-- The significand of a finite number: magnitude is `significand * 2 ^
exponent`. -/
def significand (x : Binary64) : Nat :=
  if x.exponentField = 0 then x.fraction else Nat.pow 2 52 + x.fraction

/-- The binary exponent that goes with `significand`. -/
def exponent (x : Binary64) : Int :=
  if x.exponentField = 0 then -1074 else (x.exponentField : Int) - 1075

/-- The number nearest to `± digits * 10 ^ exponent`. Beyond the range of
the format the exponent alone decides, so no power is computed there. -/
def ofDecimal (negative : Bool) (digits : Nat) (exponent : Int) : Binary64 :=
  let places : Int := (Nat.toDigits 10 digits).length
  let magnitude : Float :=
    if digits = 0 then 0.0
    else if places + exponent > 400 then 1.0 / 0.0
    else if places + exponent < -400 then 0.0
    else Float.ofScientific digits (exponent < 0) exponent.natAbs
  ofFloat (if negative then -magnitude else magnitude)

def infinity : Binary64 := ⟨0x7ff0000000000000⟩
def negativeInfinity : Binary64 := ⟨0xfff0000000000000⟩
def nan : Binary64 := ⟨0x7ff8000000000000⟩

def ofNat (n : Nat) : Binary64 := ofDecimal false n 0

def ofInt (n : Int) : Binary64 := ofDecimal (n < 0) n.natAbs 0

/-- The number one. -/
def one : Binary64 := ⟨0x3ff0000000000000⟩

end Binary64

end PlanSearch
