import ElixirReader.Text.Visible
import ElixirReader.Token.Basic

/-
  This file defines what can be wrong with the characters of a
  source, before any grammar.

  Key definitions include:
    * `LexFault`
    * `LexFault.message`
    * `LexError`
    * `Span.located`
-/

namespace ElixirReader

------------------------------------------------------------
-- Places in messages
------------------------------------------------------------

/- A message with the place that it speaks of. -/
def Span.located
    (message : String)
    (span : Span) : String :=
  message ++ " at line " ++ toString span.line
    ++ ", column " ++ toString span.column

------------------------------------------------------------
-- Causes
------------------------------------------------------------

inductive LexFault where
/- No token starts with this character here. -/
| badCharacter (c : Char)
/- Digits that the base lacks; no base for an unknown letter. -/
| invalidDigits (radix : Option Radix) (digits : String)
/- The source ends inside a quoted literal. -/
| unterminatedGroup (terminator : String)
/- Something stands behind the promoter of a heredoc. -/
| invalidHeredocStart
/- The digits of an escape name no character. -/
| invalidEscape (escape : String)
deriving DecidableEq, Repr, Inhabited

namespace LexFault

/- The word for a base in messages. -/
def radixWord : Option Radix → String
| some .decimal => "decimal"
| some .binary => "binary"
| some .octal => "octal"
| some .hexadecimal => "hexadecimal"
| none => "unknown base"

def message : LexFault → String
| badCharacter c => "unexpected character: " ++ Visible.character c
| invalidDigits r ds =>
    "invalid " ++ radixWord r ++ " digits: " ++ ds
| unterminatedGroup t => "missing terminator: " ++ t
| invalidHeredocStart =>
    "heredoc allows only whitespace characters "
      ++ "followed by a new line after the opening delimiter"
| invalidEscape e => "invalid escape sequence: " ++ e

end LexFault

------------------------------------------------------------
-- Errors
------------------------------------------------------------

/- A cause and the span of the token that shows it. -/
structure LexError where
  fault : LexFault
  span : Span
deriving DecidableEq, Repr, Inhabited

/- The cause with its place. -/
def LexError.message
    (e : LexError) : String :=
  e.span.located e.fault.message

end ElixirReader
