import ElixirReader.Parser.Fault
import ElixirReader.Tree.Basic

/-
  This file defines what parsers work on: the significant
  tokens that are left, the errors found so far, and the steps
  that take tokens and note errors.

  Key definitions include:
    * `Lexeme`
    * `Lexeme.ofTokens`
    * `ParseState`
    * `Parse`
    * `skip`
    * `eat`
    * `nested`
    * `cutOff`
    * `report`
    * `errorNode`
    * `expect`
    * `expectClosing`
-/

namespace ElixirReader

------------------------------------------------------------
-- Lexemes
------------------------------------------------------------

/-
  A token that is no trivia. `spaced` says whether trivia
  stand before it.
-/
structure Lexeme where
  kind : Kind
  text : String
  span : Span
  spaced : Bool
deriving DecidableEq, Repr, Inhabited

namespace Lexeme

/- How a lexeme is called in messages. -/
def describe
    (l : Lexeme) : String :=
  if l.kind = .endOfLine then "end of line" else l.text

/- The lexemes of some tokens, the first behind trivia or not. -/
def ofTokensAfter
    (spaced : Bool) : List Token → List Lexeme
| [] => []
| t :: ts =>
    if t.kind.isTrivia then ofTokensAfter true ts
    else ⟨t.kind, t.text, t.span, spaced⟩ :: ofTokensAfter false ts

/- The lexemes of a source. -/
def ofTokens
    (tokens : List Token) : List Lexeme :=
  ofTokensAfter false tokens

end Lexeme

------------------------------------------------------------
-- State
------------------------------------------------------------

/-
  `before` is the span of the lexeme taken last, and `last`
  that of the last lexeme of all. A statement is poisoned once
  an error in it was noted; no further one is.

  The next three fields meter the run: the number of
  expressions that are being parsed inside of one another, the
  most that there were of them at a time, and whether a loop
  was given up at its bound. The last one says whether a stop
  was seen, behind which nothing is left to be read.
-/
structure ParseState where
  rest : List Lexeme
  before : Option Span
  last : Span
  errors : List ParseError
  poisoned : Bool
  active : Nat := 0
  deepest : Nat := 0
  cutShort : Bool := false
  halted : Bool := false
deriving DecidableEq, Repr

namespace ParseState

/- The state before the first of some lexemes. -/
def start
    (lexemes : List Lexeme) : ParseState :=
  { rest := lexemes
    before := none
    last := (lexemes.getLast?.map Lexeme.span).getD Span.none
    errors := []
    poisoned := false }

/- The span of the next lexeme, or of the last at the end. -/
def currentSpan
    (s : ParseState) : Span :=
  (s.rest.head?.map Lexeme.span).getD s.last

/- The span of the lexeme taken last. -/
def previousSpan
    (s : ParseState) : Span :=
  s.before.getD s.currentSpan

/- Take some lexemes. -/
def advance
    (s : ParseState)
    (n : Nat) : ParseState :=
  { s with
    rest := s.rest.drop n
    before := ((s.rest.take n).getLast?.map Lexeme.span).or s.before }

/- Note an error, unless the statement has one already. -/
def report
    (s : ParseState)
    (fault : ParseFault)
    (span : Span) : ParseState :=
  if s.poisoned then s
  else { s with poisoned := true, errors := s.errors ++ [⟨fault, span⟩] }

/- Start an expression inside of those that are being parsed. -/
def enter
    (s : ParseState) : ParseState :=
  { s with
    active := s.active + 1
    deepest := max s.deepest (s.active + 1) }

/- End the innermost of the expressions that are being parsed. -/
def leave
    (s : ParseState) : ParseState :=
  { s with active := s.active - 1 }

end ParseState

/- A parser takes lexemes and notes errors; it never fails. -/
abbrev Parse :=
  StateM ParseState

namespace Parse

------------------------------------------------------------
-- Looking ahead
------------------------------------------------------------

/- The lexemes that are left. -/
def rest : Parse (List Lexeme) :=
  return (← get).rest

/- The next lexeme. -/
def peek : Parse (Option Lexeme) :=
  return (← get).rest.head?

/- Whether the next lexeme is of a kind. -/
def isAt
    (kind : Kind) : Parse Bool :=
  return (← peek).any (·.kind == kind)

def currentSpan : Parse Span :=
  return (← get).currentSpan

def previousSpan : Parse Span :=
  return (← get).previousSpan

/- How the next lexeme is called in messages. -/
def found : Parse (Option String) :=
  return (← peek).map Lexeme.describe

/- The complaint that the next lexeme cannot stand here. -/
def unexpected : Parse ParseFault := do
  match ← peek with
  | some l => return .unexpectedToken l.describe
  | none => return .unexpectedEnd

------------------------------------------------------------
-- Taking lexemes
------------------------------------------------------------

/- Take some lexemes. -/
def skip
    (n : Nat) : Parse Unit :=
  modify (·.advance n)

/- Take the next lexeme if it is of a kind. -/
def eat
    (kind : Kind) : Parse (Option Lexeme) := do
  match ← peek with
  | some l =>
      if l.kind = kind then
        skip 1
        return some l
      else
        return none
  | none => return none

/- The number of lexemes in front that are of some kinds. -/
def runLength
    (p : Kind → Bool)
    (ls : List Lexeme) : Nat :=
  (ls.takeWhile (fun l => p l.kind)).length

def isLineEnd
    (kind : Kind) : Bool :=
  kind == .endOfLine

/- The kinds that separate statements. -/
def isSeparator
    (kind : Kind) : Bool :=
  kind == .endOfLine || kind == .semicolon

/- Take the newlines in front. -/
def skipLineEnds : Parse Unit := do
  skip (runLength isLineEnd (← rest))

/- Take the separators in front. -/
def skipSeparators : Parse Unit := do
  skip (runLength isSeparator (← rest))

------------------------------------------------------------
-- Metering
------------------------------------------------------------

/- Parse an expression, which counts while it is parsed. -/
def nested
    (p : Parse α) : Parse α := do
  modify (·.enter)
  let a ← p
  modify (·.leave)
  return a

/- Note that a loop is given up at its bound. -/
def cutOff : Parse Unit :=
  modify fun s => { s with cutShort := true }

------------------------------------------------------------
-- Noting errors
------------------------------------------------------------

/- Note an error. -/
def report
    (fault : ParseFault)
    (span : Span) : Parse Unit :=
  modify (·.report fault span)

/- Note that no further error of the statement is wanted. -/
def poison : Parse Unit :=
  modify fun s => { s with poisoned := true }

/- Note an error and stand in for what is faulty. -/
def failure
    (fault : ParseFault)
    (errorSpan nodeSpan : Span) : Parse Node := do
  report fault errorSpan
  return Node.failure fault.message nodeSpan

/- Note an error at the next lexeme and stand in for it. -/
def errorNode
    (fault : ParseFault) : Parse Node := do
  let span ← currentSpan
  failure fault span span

/- Stand in for a lexeme that has been reported already. -/
def lexicalErrorNode
    (l : Lexeme) : Parse Node := do
  poison
  return Node.failure (ParseFault.unexpectedToken l.describe).message l.span

/- Complain that something else has to stand here. -/
def wantedNode
    (wanted : Wanted) : Parse Node := do
  errorNode (.expected wanted (← found))

/- Take a lexeme of a kind, or stand in for it. -/
def expect
    (kind : Kind)
    (wanted : Wanted) : Parse (Except Node Lexeme) := do
  match ← eat kind with
  | some l => return .ok l
  | none => return .error (← wantedNode wanted)

/-
  Take what closes a construct opened at a place, or stand in
  for it. At the end of the source the complaint is about the
  opening.
-/
def expectClosing
    (closer : Closer)
    (opened : Span) : Parse (Except Node Lexeme) := do
  skipLineEnds
  match ← peek with
  | none =>
      return .error (← failure (.missingTerminator closer.text opened.line)
        opened opened)
  | some _ => expect closer.kind (.closer closer)

/-
  Take what closes a construct and give the span of the whole
  construct. What stands in for it is put behind the items.
-/
def close
    (closer : Closer)
    (opened : Span)
    (items : List Node) : Parse (List Node × Span) := do
  match ← expectClosing closer opened with
  | .ok l => return (items, opened.merge l.span)
  | .error e => return (items ++ [e], opened.merge (← previousSpan))

end Parse

end ElixirReader
