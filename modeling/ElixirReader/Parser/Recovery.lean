import ElixirReader.Parser.State

/-
  This file defines statements, and how parsing goes on behind
  an error: at the next place where a statement may end, past
  all that the faulty statement has left open.

  Key definitions include:
    * `Kind.opens`
    * `Kind.closes`
    * `Parse.recoveryLength`
    * `Parse.recover`
    * `Parse.finishStatement`
    * `Parse.statements`
-/

namespace ElixirReader

------------------------------------------------------------
-- Nesting
------------------------------------------------------------

namespace Kind

/- The kinds that open a construct. -/
def opens : Kind → Bool
| opening _ => true
| word .do => true
| word .fn => true
| interpolationStart => true
| promoter _ _ => true
| _ => false

/- The kinds that close a construct. -/
def closes : Kind → Bool
| closing _ => true
| word .end => true
| interpolationEnd => true
| terminator _ _ => true
| _ => false

/- The number of open constructs behind a kind. -/
def nesting
    (depth : Nat)
    (kind : Kind) : Nat :=
  if kind.opens then depth + 1
  else if kind.closes then depth - 1
  else depth

end Kind

------------------------------------------------------------
-- Contexts
------------------------------------------------------------

/-
  What the surroundings of an expression allow: several
  arguments for a call without parentheses, and a do block
  behind a call.
-/
structure Context where
  manyArguments : Bool
  doBlocks : Bool
deriving DecidableEq, Repr, Inhabited

namespace Context

def statement : Context :=
  ⟨true, true⟩

/- The elements of a container, or of arguments in parentheses. -/
def container : Context :=
  ⟨false, true⟩

/- The arguments of a call without parentheses. -/
def argument : Context :=
  ⟨false, false⟩

end Context

/-
  A parser for expressions whose operators bind at least as
  tightly as a given precedence.
-/
abbrev ExpressionParser :=
  Nat → Context → Parse Node

namespace Parse

------------------------------------------------------------
-- Recovery
------------------------------------------------------------

/-
  The number of lexemes before the next separator, or lexeme
  at which the statements stop, with nothing open.
-/
def recoveryLength
    (stop : Kind → Bool) : Nat → List Lexeme → Nat
| _, [] => 0
| depth, l :: ls =>
    if depth = 0 ∧ (isSeparator l.kind || stop l.kind) then 0
    else 1 + recoveryLength stop (l.kind.nesting depth) ls

/- The lexemes taken since a number of them were left. -/
def takenSince
    (start now : List Lexeme) : List Lexeme :=
  start.take (start.length - now.length)

/- The number of constructs that some lexemes leave open. -/
def openDepth
    (ls : List Lexeme) : Nat :=
  ls.foldl (fun depth l => l.kind.nesting depth) 0

/- Go on behind what a faulty statement has left open. -/
def synchronize
    (stop : Kind → Bool)
    (start : List Lexeme) : Parse Unit := do
  let now ← rest
  skip (recoveryLength stop (openDepth (takenSince start now)) now)

/- If a statement is faulty, go on behind it. -/
def recover
    (stop : Kind → Bool)
    (start : List Lexeme) : Parse Unit := do
  if (← get).poisoned then
    synchronize stop start
    modify fun s => { s with poisoned := false }

------------------------------------------------------------
-- Statements
------------------------------------------------------------

/- Complain unless a statement may end here. -/
def boundaryError?
    (stop : Kind → Bool) : Parse (Option Node) := do
  match ← peek with
  | none => return none
  | some l =>
      if isSeparator l.kind || stop l.kind || (← get).poisoned then
        return none
      else
        return some (← failure (.unexpectedToken l.describe) l.span l.span)

/- A statement that took no lexeme takes one. -/
def ensureProgress
    (stop : Kind → Bool)
    (start : List Lexeme) : Parse Unit := do
  let now ← rest
  if now.length = start.length ∧ now.head?.any (fun l => !stop l.kind) then
    skip 1

/-
  End a statement that started where `start` was left. What
  stands where the statement should have ended is returned, if
  the statement itself is in order.
-/
def finishStatement
    (stop : Kind → Bool)
    (start : List Lexeme) : Parse (Option Node) := do
  let trailing ← boundaryError? stop
  recover stop start
  ensureProgress stop start
  return trailing

/- A statement and what stands behind it, as one. -/
def withTrailing
    (statement : Node) : Option Node → Node
| none => statement
| some e => ⟨.block [statement, e], statement.span.merge e.span⟩

/- Parse with errors of its own, apart from the statement around. -/
def isolated
    (p : Parse α) : Parse α := do
  let outer := (← get).poisoned
  modify fun s => { s with poisoned := false }
  let a ← p
  modify fun s => { s with poisoned := outer }
  return a

/- Whether statements end at a place. -/
def endsAt
    (stop : Kind → Bool) : Option Lexeme → Bool
| none => true
| some l => stop l.kind

/- One statement. -/
def statement
    (expr : ExpressionParser)
    (stop : Kind → Bool) : Parse Node := do
  let start ← rest
  let node ← expr 0 .statement
  return withTrailing node (← finishStatement stop start)

/- Statements, with a bound on their number. -/
def statementsFor
    (expr : ExpressionParser)
    (stop : Kind → Bool) : Nat → Parse (List Node)
| 0 => do
    cutOff
    return []
| n + 1 => do
    skipSeparators
    if endsAt stop (← peek) then
      return []
    else
      let node ← statement expr stop
      return node :: (← statementsFor expr stop n)

/- Statements up to a lexeme at which they stop. -/
def statements
    (expr : ExpressionParser)
    (stop : Kind → Bool) : Parse (List Node) := do
  isolated (statementsFor expr stop ((← rest).length + 1))

end Parse

end ElixirReader
