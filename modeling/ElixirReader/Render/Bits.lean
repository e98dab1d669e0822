import ElixirReader.Render.Written
import ElixirReader.Text.Escape

/-
  This file writes binaries that are put together from parts:
  strings with interpolations, bit strings, and sigils.

  Key definitions include:
    * `Written.interpolated?`
    * `Written.modifiers`
    * `Written.bits`
    * `Written.sigil`
-/

namespace ElixirReader.Written

------------------------------------------------------------
-- Interpolations
------------------------------------------------------------

/- An expression between the marks of an interpolation. -/
def interpolation
    (w : Written) : List Char :=
  "#\x7b".toList ++ w.text ++ "\x7d".toList

/- The argument of a call of `Kernel.to_string`. -/
def converted?
    (w : Written) : Option Written :=
  match w.call? with
  | some (function, _, .list _ [argument]) =>
      match function.args? with
      | some [module, name] =>
          if module.isAtom "Elixir.Kernel" && name.isAtom "to_string" then
            some argument
          else
            none
      | _ => none
  | _ => none

/- Whether a term is the type of binaries. -/
def isBinaryType
    (w : Written) : Bool :=
  w.call?.any fun (name, _, _) => name.isAtom "binary"

/- The expression of an interpolation, by the part that it is. -/
def interpolated?
    (w : Written) : Option Written :=
  match w.argsOf? "::" with
  | some [conversion, type] =>
      if isBinaryType type then converted? conversion else none
  | _ => none

------------------------------------------------------------
-- Strings
------------------------------------------------------------

/- A part of a string; other terms have no place there. -/
def stringPart? : Written → Option (List Char)
| .binary content => some (Literal.escapedText content.toList)
| w => (interpolated? w).map interpolation

/- A string with interpolations. -/
def string
    (parts : List (List Char)) : List Char :=
  "\"".toList ++ parts.flatten ++ "\"".toList

------------------------------------------------------------
-- Bit strings
------------------------------------------------------------

/- The type and size of a segment, joined by dashes. -/
def modifiers : Written → List Char
| .tuple text [.atom name, .list _ _, .list _ [left, right]] =>
    if name = "-" then modifiers left ++ "-".toList ++ modifiers right
    else text
| w => w.text

/- A segment of a bit string. -/
def segment
    (w : Written) : List Char :=
  match w.argsOf? "::" with
  | some [value, type] =>
      operand 60 true value ++ "::".toList ++ modifiers type
  | _ => w.text

/- A string if all parts have a place in one, or a bit string. -/
def bits
    (parts : List Written) : List Char :=
  match parts.mapM stringPart? with
  | some (first :: rest) => string (first :: rest)
  | _ => "<<".toList ++ commas (parts.map segment) ++ ">>".toList

------------------------------------------------------------
-- Sigils
------------------------------------------------------------

/- What stands in front of the names of all sigils. -/
def sigilMark : List Char :=
  "sigil_".toList

/- A name without any marks in front. -/
def withoutSigilMarks : List Char → List Char
| 's' :: 'i' :: 'g' :: 'i' :: 'l' :: '_' :: cs => withoutSigilMarks cs
| cs => cs

/- The quotes in a sigil are escaped, and nothing else. -/
def escapeQuote
    (c : Char) : List Char :=
  if c = '"' then ['\\', '"'] else [c]

def sigilPart : Written → List Char
| .binary content => content.toList.flatMap escapeQuote
| w => interpolation ((interpolated? w).getD w)

/- The letter of a modifier, by its code point. -/
def sigilModifier : Written → List Char
| .integer (.ofNat code) => (charOfCode? code).toList
| _ => []

def sigil
    (name : List Char)
    (content : Written)
    (letters : List Written) : List Char :=
  "~".toList ++ withoutSigilMarks name ++ "\"".toList
    ++ (content.args?.getD []).flatMap sigilPart ++ "\"".toList
    ++ letters.flatMap sigilModifier

end ElixirReader.Written
