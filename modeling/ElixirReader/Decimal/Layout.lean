/-
  This file writes decimals. A decimal is its digits and the
  place of its point, counted from the front of the digits, so
  that its value is the digits behind `0.` times ten to the
  power of the place.

  Key definitions include:
    * `Decimal`
    * `Decimal.plain`
    * `Decimal.scientific`
    * `Decimal.powerCost`
    * `Decimal.isPlain`
    * `Decimal.layout`
-/

namespace ElixirReader

------------------------------------------------------------
-- Integers
------------------------------------------------------------

/- The decimal digits of a number. -/
def decimalDigits
    (n : Nat) : List Char :=
  Nat.toDigits 10 n

/- An integer in decimal digits, behind a minus if negative. -/
def integerText
    (i : Int) : List Char :=
  if i < 0 then '-' :: decimalDigits i.natAbs
  else decimalDigits i.natAbs

------------------------------------------------------------
-- Decimals
------------------------------------------------------------

/- The digits of a decimal, and the place of its point. -/
structure Decimal where
  digits : List Char
  place : Int
deriving DecidableEq, Repr, Inhabited

namespace Decimal

def zeros
    (n : Nat) : List Char :=
  List.replicate n '0'

/- The digits with a point among them, and zeros up to it. -/
def plain
    (d : Decimal) : List Char :=
  if d.place ≤ 0 then
    ['0', '.'] ++ zeros (-d.place).toNat ++ d.digits
  else if d.place < d.digits.length then
    d.digits.take d.place.toNat ++ ['.'] ++ d.digits.drop d.place.toNat
  else
    d.digits ++ zeros (d.place - d.digits.length).toNat ++ ['.', '0']

/- The digits behind the first one, of which there is one. -/
def fraction
    (d : Decimal) : List Char :=
  if d.digits.length ≤ 1 then ['0'] else d.digits.drop 1

/- The point behind the first digit, and the power of ten. -/
def scientific
    (d : Decimal) : List Char :=
  d.digits.take 1 ++ ['.'] ++ d.fraction ++ ['e']
    ++ integerText (d.place - 1)

/-
  What the power of ten adds to the digits: a point, the mark
  of the power, its exponent, and a zero behind a lone digit.
-/
def powerCost
    (d : Decimal) : Nat :=
  (integerText (d.place - 1)).length + 1
    + (if d.digits.length = 1 then 2 else 1)

/-
  Whether a decimal does without a power of ten. It always does
  if its point is in front of its digits or among them. If it
  takes zeros to reach the point, they and the two characters
  next to them are weighed against the power: below a tenth
  they have to cost less, and above they may cost the same.
-/
def isPlain
    (d : Decimal) : Bool :=
  if d.place < 0 then
    decide (2 - d.place < d.powerCost)
  else if d.place = 0 ∨ d.place < d.digits.length then
    true
  else
    decide (d.place - d.digits.length + 2 ≤ d.powerCost)

/- The form that costs less. -/
def layout
    (d : Decimal) : List Char :=
  if d.isPlain then d.plain else d.scientific

end Decimal

end ElixirReader
