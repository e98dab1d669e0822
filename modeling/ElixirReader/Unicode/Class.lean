import ElixirReader.Unicode.Alphabetic
import ElixirReader.Unicode.Numeric
import ElixirReader.Unicode.Lowercase
import ElixirReader.Unicode.GraphemeExtend
import ElixirReader.Unicode.Unprintable

/-
  This file defines the character classes that decide what a
  name is and which characters are written out in diagnostics.
  A large class has its rule for ASCII and a table for the rest.

  Key definitions include:
    * `isAlphabetic`
    * `isAlphanumeric`
    * `isLowercase`
    * `isControl`
    * `isGraphemeExtend`
    * `isCombining`
    * `isFiller`
    * `isPrintable`
    * `isHexDigit`
-/

namespace ElixirReader.Unicode

------------------------------------------------------------
-- Classes with a table
------------------------------------------------------------

/- The derived property Alphabetic. -/
def isAlphabetic
    (c : Char) : Bool :=
  if c.toNat < 128 then c.isAlpha else inRanges alphabeticRanges c.toNat

/- A number of any kind: decimal digit, letter number, other. -/
def isNumeric
    (c : Char) : Bool :=
  if c.toNat < 128 then c.isDigit else inRanges numericRanges c.toNat

/- Alphabetic or numeric. -/
def isAlphanumeric
    (c : Char) : Bool :=
  isAlphabetic c || isNumeric c

/- The derived property Lowercase. -/
def isLowercase
    (c : Char) : Bool :=
  if c.toNat < 128 then c.isLower else inRanges lowercaseRanges c.toNat

/- A character that extends the one before it. -/
def isGraphemeExtend
    (c : Char) : Bool :=
  if c.toNat < 128 then false else inRanges graphemeExtendRanges c.toNat

------------------------------------------------------------
-- Visible characters
------------------------------------------------------------

/-
  The sound marks of halfwidth katakana. They have the property
  Grapheme_Extend, but are letters that stand beside the one
  before them.
-/
def isHalfwidthMark
    (c : Char) : Bool :=
  inRanges [(0xff9e, 0xff9f)] c.toNat

/- A character that merges with the one before it. -/
def isCombining
    (c : Char) : Bool :=
  isGraphemeExtend c && !isHalfwidthMark c

/-
  The letters with the property Default_Ignorable_Code_Point:
  the fillers of Hangul syllables, which are blank.
-/
def isFiller
    (c : Char) : Bool :=
  inRanges [(0x115f, 0x1160), (0x3164, 0x3164), (0xffa0, 0xffa0)]
    c.toNat

/- A character with a visible form, and the space. -/
def isPrintable
    (c : Char) : Bool :=
  if c.toNat < 128 then
    decide (32 ≤ c.toNat ∧ c.toNat < 127)
  else
    !inRanges unprintableRanges c.toNat && !isFiller c

------------------------------------------------------------
-- Classes without a table
------------------------------------------------------------

/- The control characters: the general category Cc. -/
def isControl
    (c : Char) : Bool :=
  decide (c.toNat < 32 ∨ (127 ≤ c.toNat ∧ c.toNat < 160))

/- A hexadecimal digit in either case. -/
def isHexDigit
    (c : Char) : Bool :=
  c.isDigit || (decide ('a' ≤ c ∧ c ≤ 'f') || decide ('A' ≤ c ∧ c ≤ 'F'))

end ElixirReader.Unicode
