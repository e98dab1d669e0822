import ElixirReader.Parser.Expression

/-
  This file defines parsers that may be stopped from outside.
  Such a parser looks for a stop before each statement and
  each expression. Once it has seen one, it finds nothing more
  to read, so that all that is being parsed comes to its end.

  Key definitions include:
    * `Cancelled`
    * `Parse.poll`
    * `Parse.expressionUnless`
    * `Parse.statementsUnless`
    * `parseUnless`
-/

namespace ElixirReader

/- A stop was asked for before the end of the source. -/
inductive Cancelled where
| cancelled
deriving DecidableEq, Repr, Inhabited

def Cancelled.message : Cancelled → String
| .cancelled => "analysis cancelled"

namespace Parse

------------------------------------------------------------
-- Looking for a stop
------------------------------------------------------------

/- See a stop: there is nothing more to be read. -/
def halt : Parse Unit :=
  modify fun s => { s with rest := [], halted := true }

/- Look whether a stop was asked for. -/
def poll
    (raised : Bool) : Parse Unit :=
  if raised then halt else return ()

------------------------------------------------------------
-- Parsers
------------------------------------------------------------

/- Expressions that look for a stop before they start. -/
def expressionUnless
    (raised : Bool) : Nat → Levels
| 0 => fun _ _ _ => do
    poll raised
    tooDeep
| n + 1 => fun height precedence context => do
    poll raised
    expressionOver (expressionUnless raised n) height precedence context

/-
  Statements that look for a stop before each one, with a bound
  on their number.
-/
def statementsUnlessFor
    (raised : Bool)
    (expr : ExpressionParser)
    (stop : Kind → Bool) : Nat → Parse (List Node)
| 0 => do
    cutOff
    return []
| n + 1 => do
    poll raised
    skipSeparators
    if endsAt stop (← peek) then
      return []
    else
      let node ← statement expr stop
      return node :: (← statementsUnlessFor raised expr stop n)

/- Statements up to a lexeme at which they stop, or up to a stop. -/
def statementsUnless
    (raised : Bool)
    (expr : ExpressionParser)
    (stop : Kind → Bool) : Parse (List Node) := do
  isolated
    (statementsUnlessFor raised expr stop ((← rest).length + 1))

end Parse

------------------------------------------------------------
-- Documents
------------------------------------------------------------

/-
  Parse a list of tokens unless a stop was asked for. What was
  parsed before a stop was seen is dropped.
-/
def parseUnless
    (raised : Bool)
    (tokens : List Token) :
    Except Cancelled (Document × List ParseError) :=
  let lexemes := Lexeme.ofTokens tokens
  let (expressions, s) :=
    Parse.statementsUnless raised
      (Parse.expressionUnless raised maxNesting maxHeight)
      (fun _ => false) (ParseState.start lexemes)
  if s.halted then .error .cancelled
  else .ok (⟨expressions, Document.spanOf lexemes⟩, s.errors)

end ElixirReader
