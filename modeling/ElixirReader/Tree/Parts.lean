import ElixirReader.Text.Escape
import ElixirReader.Tree.Basic

/-
  This file defines what the inside of a quoted literal says:
  runs of characters and the interpolations between them. The
  escapes of strings are decoded, those of sigils are kept.
  Heredoc lines lose their indentation either way.

  Key definitions include:
    * `Part`
    * `Segment.characters`
    * `Text.parts`
    * `Text.literal?`
    * `Text.isInterpolated`
-/

namespace ElixirReader

------------------------------------------------------------
-- Parts
------------------------------------------------------------

inductive Part (ν : Type) where
| literal (text : String)
| interpolation (node : ν)
deriving DecidableEq, Repr

namespace Part

/- Put characters before parts, joined to a run in front. -/
def prepend
    (text : String) : List (Part ν) → List (Part ν)
| .literal t :: ps => .literal (text ++ t) :: ps
| ps => if text = "" then ps else .literal text :: ps

end Part

namespace Segment

/- What an escape stands for, or the escape if it is faulty. -/
def decoded
    (escape : String) : String :=
  ((Escape.decode? escape.toList).map String.ofList).getD escape

/- The characters of a segment; an interpolation has none. -/
def characters
    (decode : Bool)
    (indent : Nat) : Segment ν → String
| .fragment text => text
| .escape text => if decode then decoded text else text
| .indent blanks => String.ofList (blanks.toList.drop indent)
| .interpolation _ => ""

def isInterpolation : Segment ν → Bool
| .interpolation _ => true
| _ => false

end Segment

namespace Text

/- Put a segment before parts. -/
def prependSegment
    (decode : Bool)
    (indent : Nat)
    (segment : Segment ν)
    (ps : List (Part ν)) : List (Part ν) :=
  match segment with
  | .interpolation n => .interpolation n :: ps
  | s => Part.prepend (s.characters decode indent) ps

/- The longest runs of characters, and what is between them. -/
def parts
    (decode : Bool)
    (t : Text ν) : List (Part ν) :=
  t.segments.foldr (prependSegment decode t.indent) []

def isInterpolated
    (t : Text ν) : Bool :=
  t.segments.any Segment.isInterpolation

/- The decoded characters of a text without interpolations. -/
def literal?
    (t : Text ν) : Option String :=
  if t.isInterpolated then none
  else some (String.join (t.segments.map (·.characters true t.indent)))

end Text

end ElixirReader
