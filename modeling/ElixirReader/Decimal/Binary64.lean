/-
  This file defines floating point numbers of 64 bits by their
  bits: a sign, eleven bits of exponent, and fifty-two bits of
  fraction. Values are exact fractions of natural numbers.

  Key definitions include:
    * `Binary64`
    * `Binary64.significand`
    * `Binary64.scale`
    * `Binary64.same`
    * `Binary64.ofDecimal?`
-/

namespace ElixirReader

------------------------------------------------------------
-- Bits
------------------------------------------------------------

structure Binary64 where
  bits : UInt64
deriving DecidableEq, Repr, Inhabited

namespace Binary64

/- The bit of the sign. -/
def signBit : Nat :=
  Nat.pow 2 63

/- The lowest bit of the exponent, above those of the fraction. -/
def exponentBit : Nat :=
  Nat.pow 2 52

/- The magnitude of infinity, where all bits of the exponent are set. -/
def infinity : Nat :=
  2047 * exponentBit

/- One, counted in units of the smallest power of two. -/
def unitsPerOne : Nat :=
  Nat.pow 2 1074

def sign
    (x : Binary64) : Bool :=
  decide (signBit ≤ x.bits.toNat)

/- All bits but the sign. -/
def magnitude
    (x : Binary64) : Nat :=
  x.bits.toNat % signBit

/- The exponent as it is stored. -/
def exponentField
    (x : Binary64) : Nat :=
  x.magnitude / exponentBit

def fractionField
    (x : Binary64) : Nat :=
  x.magnitude % exponentBit

def isNaN
    (x : Binary64) : Bool :=
  decide (infinity < x.magnitude)

def isInfinite
    (x : Binary64) : Bool :=
  decide (x.magnitude = infinity)

def isFinite
    (x : Binary64) : Bool :=
  decide (x.magnitude < infinity)

/-
  Equality of numbers: a number that is none differs from all,
  and the two zeros are one.
-/
def same
    (x y : Binary64) : Bool :=
  !x.isNaN && !y.isNaN &&
    (x == y || (x.magnitude == 0 && y.magnitude == 0))

------------------------------------------------------------
-- Finite values
------------------------------------------------------------

/-
  A finite number is its significand times a power of two.
  Small exponents leave out the leading one.
-/
def significand
    (x : Binary64) : Nat :=
  if x.exponentField = 0 then x.fractionField
  else x.fractionField + exponentBit

/- The power of two, counted up from the smallest. -/
def scale
    (x : Binary64) : Nat :=
  x.exponentField - 1

------------------------------------------------------------
-- Reading decimals
------------------------------------------------------------

/- A quotient rounded to the nearest, and to even from the middle. -/
def roundDiv
    (num den : Nat) : Nat :=
  let q := num / den
  let r := num % den
  if 2 * r < den then q
  else if den < 2 * r then q + 1
  else if q % 2 = 0 then q
  else q + 1

/-
  The scale at which the whole part of a fraction, counted in
  units of the smallest power of two, fits into the bits of a
  significand.
-/
def scaleFor
    (num den : Nat) : Nat :=
  (num / den).log2 - 52

/-
  The magnitude nearest to a fraction counted in units of the
  smallest power of two. Rounding up may carry into the
  exponent, which is what the next larger number needs.
-/
def magnitudeOfUnits
    (num den : Nat) : Nat :=
  let s := scaleFor num den
  let m := roundDiv num (den * Nat.pow 2 s)
  if m < exponentBit then m else s * exponentBit + m

/-
  The magnitude nearest to a decimal `digits * 10 ^ exponent`.
  Decimals far outside of the range are not computed.
-/
def magnitudeOfDecimal?
    (digits : Nat)
    (exponent : Int) : Option Nat :=
  let width : Int := (Nat.toDigits 10 digits).length
  if digits = 0 ∨ exponent + width < -400 then some 0
  else if 400 < exponent + width then none
  else
    let m :=
      if 0 ≤ exponent then
        magnitudeOfUnits (digits * Nat.pow 10 exponent.toNat * unitsPerOne) 1
      else
        magnitudeOfUnits (digits * unitsPerOne)
          (Nat.pow 10 (-exponent).toNat)
    if m < infinity then some m else none

/- The number nearest to a decimal, unless it is too large. -/
def ofDecimal?
    (negative : Bool)
    (digits : Nat)
    (exponent : Int) : Option Binary64 :=
  (magnitudeOfDecimal? digits exponent).map fun m =>
    ⟨UInt64.ofNat (if negative then signBit + m else m)⟩

end Binary64

end ElixirReader
