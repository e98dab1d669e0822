import ElixirReader.Unicode.Class

/-
  This file defines what an escape in a quoted literal stands
  for. An escape is a backslash, a character, and for `x` and
  `u` the hexadecimal digits of a code point.

  Key definitions include:
    * `hexValue`
    * `charOfCode?`
    * `Escape.named`
    * `Escape.codePoint?`
    * `Escape.decode?`
    * `Escape.characterCode?`
-/

namespace ElixirReader

------------------------------------------------------------
-- Code points
------------------------------------------------------------

/- The value of a hexadecimal digit. -/
def hexDigitValue
    (c : Char) : Nat :=
  if c.isDigit then c.toNat - '0'.toNat
  else if c ≤ 'F' then c.toNat - 'A'.toNat + 10
  else c.toNat - 'a'.toNat + 10

/- The number that hexadecimal digits stand for. -/
def hexValue
    (digits : List Char) : Nat :=
  digits.foldl (fun n c => 16 * n + hexDigitValue c) 0

/- The character of a code point that has one. -/
def charOfCode?
    (n : Nat) : Option Char :=
  if h : n.isValidChar then some (Char.ofNatAux n h) else none

namespace Escape

------------------------------------------------------------
-- Single escapes
------------------------------------------------------------

/-
  The character that a letter behind a backslash stands for.
  One without a meaning of its own stands for itself.
-/
def named : Char → Char
| 'a' => '\x07'
| 'b' => '\x08'
| 'd' => '\x7f'
| 'e' => '\x1b'
| 'f' => '\x0c'
| 'n' => '\n'
| 'r' => '\r'
| 's' => ' '
| 't' => '\t'
| 'v' => '\x0b'
| '0' => '\x00'
| c => c

/- Digits between curlies, without the curlies. -/
def braced? : List Char → Option (List Char)
| '{' :: rest =>
    if rest.getLast? = some '}' then some rest.dropLast else none
| _ => none

/- Whether bare digits are as many as their letter allows. -/
def HasWidth
    (letter : Char)
    (digits : List Char) : Prop :=
  if letter = 'x' then digits.length ≤ 2 else digits.length = 4

instance
    (letter : Char)
    (digits : List Char) : Decidable (HasWidth letter digits) := by
  unfold HasWidth
  infer_instance

/- The character that at least one hexadecimal digit names. -/
def ofHex?
    (digits : List Char) : Option Char :=
  if digits ≠ [] ∧ digits.all Unicode.isHexDigit then
    charOfCode? (hexValue digits)
  else
    none

/-
  The character named behind `x` or `u`: any number of digits
  between curlies, or at most two for `x` and four for `u`.
-/
def codePoint?
    (letter : Char)
    (digits : List Char) : Option Char :=
  if digits.head? = some '{' then
    (braced? digits).bind ofHex?
  else if HasWidth letter digits then
    ofHex? digits
  else
    none

/-
  What an escape stands for, backslash included. An escaped
  line break stands for nothing. There is no answer for `x`
  and `u` without the digits of a code point.
-/
def decode? : List Char → Option (List Char)
| '\\' :: c :: rest =>
    if c = '\n' ∨ c = '\r' then
      some []
    else if c = 'x' ∨ c = 'u' then
      (codePoint? c rest).map ([·])
    else
      some [named c]
| _ => none

------------------------------------------------------------
-- Character literals
------------------------------------------------------------

/- The code point of a character literal, from the text behind `?`. -/
def characterCode? : List Char → Option Nat
| [] => none
| '\\' :: rest =>
    match decode? ('\\' :: rest) with
    | some [c] => some c.toNat
    | _ => none
| c :: _ => some c.toNat

end Escape

end ElixirReader
