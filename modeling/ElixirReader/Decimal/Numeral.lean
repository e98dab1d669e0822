import ElixirReader.Decimal.Binary64

/-
  This file reads numbers from text: integers in a base, with
  underscores between digits, and decimals with a point and an
  exponent.

  Key definitions include:
    * `Numeral.digitValue?`
    * `Numeral.digitsValue?`
    * `Numeral.integer?`
    * `Numeral.decimal?`
-/

namespace ElixirReader.Numeral

------------------------------------------------------------
-- Integers
------------------------------------------------------------

/- The value of a digit, where letters count on from nine. -/
def digitValue?
    (c : Char) : Option Nat :=
  if c.isDigit then some (c.toNat - '0'.toNat)
  else if c.isLower then some (c.toNat - 'a'.toNat + 10)
  else if c.isUpper then some (c.toNat - 'A'.toNat + 10)
  else none

/- Append a digit of a base to a number. -/
def push?
    (base : Nat)
    (n : Nat)
    (c : Char) : Option Nat :=
  match digitValue? c with
  | some d => if d < base then some (base * n + d) else none
  | none => none

/- Append digits of a base to a number, leaving out underscores. -/
def digitsFrom?
    (base : Nat) : Nat → List Char → Option Nat
| n, [] => some n
| n, c :: cs =>
    if c = '_' then digitsFrom? base n cs
    else (push? base n c).bind (digitsFrom? base · cs)

/- The number that digits stand for; the first is a digit indeed. -/
def digitsValue?
    (base : Nat)
    (cs : List Char) : Option Nat :=
  if cs = [] ∨ cs.head? = some '_' then none else digitsFrom? base 0 cs

/- The text behind a sign, unless a plus follows it. -/
def afterSign?
    (sign : Char) : List Char → Option (List Char)
| [] => none
| c :: cs => if c = sign ∧ cs.head? ≠ some '+' then some cs else none

/- A natural number, perhaps behind a plus. -/
def natural?
    (base : Nat)
    (cs : List Char) : Option Nat :=
  digitsValue? base ((afterSign? '+' cs).getD cs)

/- An integer, perhaps behind a sign. -/
def integer?
    (base : Nat)
    (cs : List Char) : Option Int :=
  match afterSign? '-' cs with
  | some ds => (natural? base ds).map fun n => -(n : Int)
  | none => (natural? base cs).map Int.ofNat

------------------------------------------------------------
-- Decimals
------------------------------------------------------------

/- A sign in front, and what is behind it. -/
def splitSign : List Char → Bool × List Char
| '-' :: cs => (true, cs)
| '+' :: cs => (false, cs)
| cs => (false, cs)

/- The number that decimal digits stand for. -/
def digitsNumber
    (cs : List Char) : Nat :=
  cs.foldl (fun n c => 10 * n + (c.toNat - '0'.toNat)) 0

/- The digits behind a point. -/
def fractionDigits : List Char → List Char
| '.' :: cs => cs.takeWhile Char.isDigit
| _ => []

/- What is behind a point and its digits. -/
def afterFraction : List Char → List Char
| '.' :: cs => cs.dropWhile Char.isDigit
| cs => cs

/- The exponent that some digits stand for. -/
def exponentDigits?
    (negative : Bool)
    (cs : List Char) : Option Int :=
  if cs ≠ [] ∧ cs.all Char.isDigit then
    some (if negative then -(digitsNumber cs : Int) else digitsNumber cs)
  else
    none

/- The exponent that ends a decimal, zero if there is none. -/
def exponent? : List Char → Option Int
| [] => some 0
| c :: cs =>
    if c = 'e' ∨ c = 'E' then
      exponentDigits? (splitSign cs).1 (splitSign cs).2
    else
      none

/-
  The floating point number nearest to a decimal. It has a
  digit before or behind its point, and is not too large.
-/
def decimal?
    (text : List Char) : Option Binary64 :=
  let (negative, cs) := splitSign text
  let whole := cs.takeWhile Char.isDigit
  let rest := cs.dropWhile Char.isDigit
  let fraction := fractionDigits rest
  if whole = [] ∧ fraction = [] then none
  else
    (exponent? (afterFraction rest)).bind fun e =>
      Binary64.ofDecimal? negative (digitsNumber (whole ++ fraction))
        (e - fraction.length)

end ElixirReader.Numeral
