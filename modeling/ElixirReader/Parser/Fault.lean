import ElixirReader.Lexer.Fault

/-
  This file defines what can be wrong with the tokens of a
  source.

  Key definitions include:
    * `Closer`
    * `Wanted`
    * `ParseFault`
    * `ParseFault.message`
    * `ParseError`
-/

namespace ElixirReader

------------------------------------------------------------
-- Closing delimiters
------------------------------------------------------------

/- What ends a construct: a bracket, or the word `end`. -/
inductive Closer where
| bracket (bracket : Bracket)
| blockEnd
deriving DecidableEq, Repr, Inhabited

namespace Closer

def kind : Closer → Kind
| bracket b => .closing b
| blockEnd => .word .end

def text : Closer → String
| bracket .parenthesis => ")"
| bracket .square => "]"
| bracket .curly => "\x7d"
| bracket .bits => ">>"
| blockEnd => "end"

end Closer

------------------------------------------------------------
-- Causes
------------------------------------------------------------

/- What has to stand at some place. -/
inductive Wanted where
| closer (closer : Closer)
| nameAfterDot
| plainFunctionName
| rangeBeforeStep
| character
| characterAfterMark
| atomName
| keyColon
| keywordKey
| structBody
| attributeName
| structName
| sigilName
| sigilDelimiter
| arrowInFn
| arrow
deriving DecidableEq, Repr, Inhabited

def Wanted.text : Wanted → String
| closer c => "'" ++ c.text ++ "'"
| nameAfterDot => "name after '.'"
| plainFunctionName => "function name without interpolation"
| rangeBeforeStep => "range before '//'"
| character => "character"
| characterAfterMark => "character after '?'"
| atomName => "atom name after ':'"
| keyColon => "':'"
| keywordKey => "keyword key"
| structBody => "'\x7b' after struct name"
| attributeName => "attribute name"
| structName => "struct name"
| sigilName => "sigil name"
| sigilDelimiter => "sigil delimiter"
| arrowInFn => "'->' in fn"
| arrow => "'->'"

inductive ParseFault where
/- A token that cannot stand where it does. -/
| unexpectedToken (token : String)
| unexpectedEnd
/- Something else than what has to stand here, or nothing. -/
| expected (wanted : Wanted) (found : Option String)
/- The source ends before what was opened on a line is closed. -/
| missingTerminator (terminator : String) (line : Nat)
/- A number without digits, or one that is too large. -/
| invalidNumber (text : String)
| tooDeeplyNested
deriving DecidableEq, Repr, Inhabited

def ParseFault.message : ParseFault → String
| unexpectedToken t => "unexpected token: '" ++ t ++ "'"
| unexpectedEnd => "unexpected end of input"
| expected w none => "expected " ++ w.text
| expected w (some t) =>
    "expected " ++ w.text ++ ", got '" ++ t ++ "'"
| missingTerminator t line =>
    "missing terminator: " ++ t ++ " (for opening on line "
      ++ toString line ++ ")"
| invalidNumber t => "invalid number: " ++ t
| tooDeeplyNested => "expression is nested too deeply"

------------------------------------------------------------
-- Errors
------------------------------------------------------------

/- A cause and the span that it speaks of. -/
structure ParseError where
  fault : ParseFault
  span : Span
deriving DecidableEq, Repr, Inhabited

/- The cause with its place. -/
def ParseError.message
    (e : ParseError) : String :=
  e.span.located e.fault.message

end ElixirReader
