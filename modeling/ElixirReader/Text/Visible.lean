import ElixirReader.Unicode.Class

/-
  This file writes characters and texts so that every one of
  them can be seen: between quotes, with named escapes for the
  common control characters, and by code point where a
  character has no form of its own.

  Key definitions include:
    * `Visible.escaped`
    * `Visible.character`
    * `Visible.text`
-/

namespace ElixirReader.Visible

open Unicode

------------------------------------------------------------
-- Single characters
------------------------------------------------------------

/- A character written by its code point in hexadecimal. -/
def byCodePoint
    (c : Char) : List Char :=
  ['\\', 'u', '{'] ++ Nat.toDigits 16 c.toNat ++ ['}']

/-
  A character between quotes of the given sort. Only that
  quote is escaped. A character that combines with the one
  before it is written by its code point, since it would
  otherwise merge with the quote.
-/
def escaped
    (quote : Char)
    (c : Char) : List Char :=
  if c = '\x00' then ['\\', '0']
  else if c = '\t' then ['\\', 't']
  else if c = '\r' then ['\\', 'r']
  else if c = '\n' then ['\\', 'n']
  else if c = '\\' then ['\\', '\\']
  else if c = quote then ['\\', quote]
  else if isCombining c || !isPrintable c then byCodePoint c
  else [c]

------------------------------------------------------------
-- Quoted forms
------------------------------------------------------------

/- A character between single quotes. -/
def character
    (c : Char) : String :=
  String.ofList (['\''] ++ escaped '\'' c ++ ['\''])

/- A text between double quotes. -/
def text
    (s : String) : String :=
  String.ofList (['"'] ++ s.toList.flatMap (escaped '"') ++ ['"'])

end ElixirReader.Visible
