namespace Groupwise

def Binary64.leading : Nat := 0x10000000000000

def Binary64.magnitudes : Nat := 0x7ff * leading

/--
A finite binary64 number. Its magnitude is given by its rank in the ascending list of all finite magnitudes,
so that different values of the type are different numbers, zero and minus zero among them.
-/
structure Binary64 where
  negative : Bool
  rank : Nat
  rank_lt : rank < Binary64.magnitudes
  deriving DecidableEq, Repr

namespace Binary64

/-- The magnitude is `significand * 2 ^ exponent`. -/
def significand (x : Binary64) : Nat :=
  if x.rank < leading then x.rank else leading + x.rank % leading

def exponent (x : Binary64) : Int :=
  if x.rank < leading then -1074 else (x.rank / leading : Nat) - 1075

def zero (negative : Bool) : Binary64 := ⟨negative, 0, by decide⟩

/-- The quotient of two natural numbers to the nearest; of two that are as near, the even one. -/
def roundDiv (numerator denominator : Nat) : Nat :=
  let quotient := numerator / denominator
  let twice := 2 * (numerator % denominator)
  if twice < denominator ∨ (twice = denominator ∧ quotient % 2 = 0) then quotient else quotient + 1

def scale (numerator denominator : Nat) (exponent : Int) : Nat × Nat :=
  if exponent < 0 then (numerator * Nat.pow 2 (-exponent).toNat, denominator)
  else (numerator, denominator * Nat.pow 2 exponent.toNat)

def exponentOf (numerator denominator : Nat) : Int :=
  let order : Int := (Nat.log2 numerator : Int) - Nat.log2 denominator - 53
  let low := if order < -1074 then -1074 else order
  let (n, d) := scale numerator denominator low
  if n / d < 2 * leading then low else low + 1

def nearestRank (numerator denominator : Nat) : Nat :=
  let exponent := exponentOf numerator denominator
  let (n, d) := scale numerator denominator exponent
  (exponent + 1074).toNat * leading + roundDiv n d

def fraction (mantissa : Nat) (exponent : Int) : Nat × Nat :=
  if exponent < 0 then (mantissa, Nat.pow 10 (-exponent).toNat) else (mantissa * Nat.pow 10 exponent.toNat, 1)

/--
The number nearest to `mantissa * 10 ^ exponent`, if it is finite. Decimal exponents so large or so small
that they decide the answer alone are not raised to a power.
-/
def ofDecimal? (negative : Bool) (mantissa : Nat) (exponent : Int) : Option Binary64 :=
  let order : Int := (Nat.toDigits 10 mantissa).length + exponent
  if mantissa = 0 ∨ order < -400 then some (zero negative)
  else if order > 400 then none
  else
    let (n, d) := fraction mantissa exponent
    if h : nearestRank n d < magnitudes then some ⟨negative, nearestRank n d, h⟩ else none

end Binary64

end Groupwise
