import ElixirReader.Decimal.Binary64
import ElixirReader.Decimal.Layout

/-
  This file finds the shortest decimal that reads back as a
  floating point number. For one digit, two digits, and so on,
  the two neighbours of the number among the decimals with so
  many digits are tried, until one of them reads back. All
  arithmetic is exact.

  Key definitions include:
    * `Binary64.readsBack`
    * `Binary64.candidate?`
    * `Binary64.shortest`
    * `Binary64.text`
-/

namespace ElixirReader.Binary64

------------------------------------------------------------
-- Decimals that read back
------------------------------------------------------------

/-
  Half of the gap below a significand, in quarters of its last
  place. Below a power of two the gap is half as wide.
-/
def lowerGap
    (significand : Nat) : Nat :=
  if significand = exponentBit then 1 else 2

/- Whether one number is below another, or at it if allowed. -/
def isBelow
    (inclusive : Bool)
    (a b : Nat) : Bool :=
  decide (a < b) || (inclusive && a == b)

/-
  Whether `c * 10 ^ e` is nearer to a finite number than to
  all others. The middle between two numbers belongs to the
  one with an even significand. Both sides are multiplied out
  to quarters of the smallest power of two.
-/
def readsBack
    (x : Binary64)
    (c : Nat)
    (e : Int) : Bool :=
  let m := x.significand
  let unit := Nat.pow 2 x.scale * Nat.pow 10 (-e).toNat
  let value := c * Nat.pow 10 e.toNat * unitsPerOne * 4
  let even := m % 2 == 0
  isBelow even ((4 * m - lowerGap m) * unit) value
    && isBelow even value ((4 * m + 2) * unit)

------------------------------------------------------------
-- Decimals with a number of digits
------------------------------------------------------------

/-
  The number of digits before the point, or less the number of
  zeros behind it. The number is not zero.
-/
def decimalPlace
    (x : Binary64) : Int :=
  let num := x.significand * Nat.pow 2 x.scale
  let den := unitsPerOne
  if den ≤ num then (decimalDigits (num / den)).length
  else
    let n := (decimalDigits (den / num)).length
    if num * Nat.pow 10 (n - 1) = den then 2 - (n : Int) else 1 - (n : Int)

/-
  The multiple of `10 ^ e` that reads back as a number, if one
  of its two neighbours does. Of two the nearer one is taken,
  and the upper one from the middle.
-/
def candidate?
    (x : Binary64)
    (e : Int) : Option Nat :=
  let num := x.significand * Nat.pow 2 x.scale * Nat.pow 10 (-e).toNat
  let den := unitsPerOne * Nat.pow 10 e.toNat
  let c := num / den
  match x.readsBack c e, x.readsBack (c + 1) e with
  | true, true => some (if 2 * (num % den) < den then c else c + 1)
  | true, false => some c
  | false, true => some (c + 1)
  | false, false => none

/- A list of digits without the zeros at its end. -/
def withoutTrailingZeros
    (digits : List Char) : List Char :=
  (digits.reverse.dropWhile (· == '0')).reverse

/- The decimal `c * 10 ^ e`, without zeros at its end. -/
def decimalOf
    (c : Nat)
    (e : Int) : Decimal :=
  let digits := decimalDigits c
  ⟨withoutTrailingZeros digits, e + digits.length⟩

/-
  The decimal with the fewest digits that reads back as a
  finite number. Seventeen digits always suffice.
-/
def shortest
    (x : Binary64) : Decimal :=
  if x.magnitude = 0 then ⟨['0'], 1⟩
  else
    let place := x.decimalPlace
    let withDigits? (n : Nat) : Option Decimal :=
      (x.candidate? (place - n)).map (decimalOf · (place - n))
    ((List.range' 1 17).findSome? withDigits?).getD ⟨['0'], 1⟩

------------------------------------------------------------
-- Text
------------------------------------------------------------

/- The characters of a number without its sign. -/
def unsignedText
    (x : Binary64) : List Char :=
  if x.isInfinite then "inf".toList else x.shortest.layout

/- The characters of a number. -/
def text
    (x : Binary64) : List Char :=
  if x.isNaN then "NaN".toList
  else if x.sign then '-' :: x.unsignedText
  else x.unsignedText

end ElixirReader.Binary64
