import ElixirReader.Parser.Call
import ElixirReader.Parser.Number

/-
  This file defines expressions: operands with what follows
  them, and the operators between them. How deep expressions
  may be nested is limited, and so is the number of levels
  that operators and suffixes add to a tree.

  Key definitions include:
    * `Levels`
    * `Parse.primary`
    * `Parse.suffixes`
    * `Parse.operand`
    * `Parse.folds`
    * `Parse.expression`
    * `parse`
-/

namespace ElixirReader

/-
  Parsers for expressions, by the number of levels that may be
  added to the tree.
-/
abbrev Levels :=
  Nat → ExpressionParser

namespace Parse

------------------------------------------------------------
-- Primary expressions
------------------------------------------------------------

/- A node made of one lexeme. -/
def single
    (form : Form Node)
    (l : Lexeme) : Parse Node := do
  skip 1
  return ⟨form, l.span⟩

/- A reserved word where an operand should be. -/
def wordOperand
    (expr : ExpressionParser)
    (w : Word)
    (l : Lexeme) : Parse Node := do
  match w with
  | .true => single (.boolean true) l
  | .false => single (.boolean false) l
  | .nil => single .nil l
  | .fn => fn expr
  | _ => errorNode (← unexpected)

/- An opening bracket where an operand should be. -/
def bracketOperand
    (expr : ExpressionParser) : Bracket → Parse Node
| .parenthesis => parenthesized expr
| .square => container expr .square .list
| .curly => container expr .curly .tuple
| .bits => container expr .bits .bitstring

/- A promoter where an operand should be. -/
def promoterOperand
    (expr : ExpressionParser)
    (context : Context) : Parse Node := do
  if keywordAhead (← rest) then keywords expr context else textNode expr

/- A token that starts no operand; one that may end one is left. -/
def strayOperand
    (l : Lexeme) : Parse Node := do
  let node ← errorNode (← unexpected)
  if !l.kind.isBoundary then
    skip 1
  return node

/- A name or literal, or what brackets hold. -/
def primaryAt
    (expr : ExpressionParser)
    (context : Context)
    (l : Lexeme) : Parse Node := do
  match l.kind with
  | .badCharacter => do
      skip 1
      lexicalErrorNode l
  | .word w => wordOperand expr w l
  | .alias => single (.alias none [l.text]) l
  | .identifier => do
      skip 1
      identifier expr context l
  | .characterMark => character
  | .colon => atom expr
  | .atomName => keywords expr context
  | .promoter .string _ => promoterOperand expr context
  | .promoter .charlist _ => promoterOperand expr context
  | .tilde => sigil expr
  | .opening b => bracketOperand expr b
  | .operator .struct => structOrMap expr
  | k => if k.isNumberPart then number else strayOperand l

def primary
    (expr : ExpressionParser)
    (context : Context) : Parse Node := do
  match ← peek with
  | some l => primaryAt expr context l
  | none => errorNode .unexpectedEnd

------------------------------------------------------------
-- Suffixes
------------------------------------------------------------

/- What may follow a node to make a larger one. -/
inductive SuffixKind where
| dot
| key
deriving DecidableEq, Repr

/- The suffix that starts here; a key touches its subject. -/
def suffixAhead? : List Lexeme → Option SuffixKind
| [] => none
| l :: _ =>
    if l.kind = .dot then some .dot
    else if l.kind = .opening .square ∧ l.spaced = false then some .key
    else none

/- A node with one suffix. -/
def withSuffix
    (expr : ExpressionParser)
    (context : Context)
    (node : Node) : SuffixKind → Parse Node
| .dot => dotted expr context node
| .key => access expr node

/- What stands in for a node that is nested too deeply. -/
def tooDeep : Parse Node :=
  errorNode .tooDeeplyNested

/- A node with all suffixes that follow, one level for each. -/
def suffixes
    (levels : Levels)
    (context : Context) : Nat → Node → Parse Node
| 0, node => do
    match suffixAhead? (← rest) with
    | none => return node
    | some _ => tooDeep
| h + 1, node => do
    match suffixAhead? (← rest) with
    | none => return node
    | some kind => do
        let larger ← withSuffix (levels h) context node kind
        suffixes levels context h larger

------------------------------------------------------------
-- Operands
------------------------------------------------------------

/- An operator before its operand. -/
def unary
    (expr : ExpressionParser)
    (precedence : Nat)
    (context : Context)
    (operator : Lexeme) : Parse Node := do
  skip 1
  skipLineEnds
  let operand ← expr precedence context
  return ⟨.unary operator.text operand, operator.span.merge operand.span⟩

/- A capture of an expression, or of an argument by its index. -/
def capture
    (expr : ExpressionParser)
    (context : Context)
    (operator : Lexeme) : Parse Node := do
  if captureArgumentAhead (← rest).tail then
    skip 1
    let index ← number
    return ⟨.unary operator.text index, operator.span.merge index.span⟩
  else
    unary expr (Precedence.capture + 1) context operator

/- A module attribute with its suffixes. -/
def moduleAttribute
    (levels : Levels)
    (h : Nat)
    (context : Context)
    (operator : Lexeme) : Parse Node := do
  skip 1
  let operand ← primary (levels h) context
  suffixes levels context h
    ⟨.unary operator.text operand, operator.span.merge operand.span⟩

/- The full range, which is the range operator alone. -/
def fullRange
    (l : Lexeme) : Parse Node := do
  skip 1
  return (Suffix.bare l.span).call (.bare l.text) l.span

/- A primary expression with its suffixes. -/
def suffixed
    (levels : Levels)
    (h : Nat)
    (context : Context) : Parse Node := do
  let node ← primary (levels h) context
  suffixes levels context h node

/- An operand with the operators before it. -/
def operandAt
    (levels : Levels)
    (h : Nat)
    (context : Context)
    (l : Lexeme) : Parse Node := do
  match l.kind with
  | .operator .negation => unary (levels h) Precedence.unary context l
  | .operator .identity => unary (levels h) Precedence.unary context l
  | .operator .unary => unary (levels h) Precedence.unary context l
  | .operator .notWord => unary (levels h) Precedence.unary context l
  | .operator .capture => capture (levels h) context l
  | .operator .range => fullRange l
  | .operator .atSign => moduleAttribute levels h context l
  | _ => suffixed levels h context

def operand
    (levels : Levels)
    (h : Nat)
    (context : Context) : Parse Node := do
  match ← peek with
  | some l => operandAt levels h context l
  | none => errorNode .unexpectedEnd

------------------------------------------------------------
-- Operators between operands
------------------------------------------------------------

def isRange
    (n : Node) : Bool :=
  match n.form with
  | .binary operator _ _ _ => operator == ".."
  | _ => false

/- The step of a range needs a range before it. -/
def checkStep
    (operator : InfixOperator)
    (left right : Node) : Parse Node := do
  if operator.name = "//" ∧ isRange left = false then
    failure (.expected .rangeBeforeStep none) operator.span operator.span
  else
    return right

/- Two operands joined by an operator. -/
def joined
    (operator : InfixOperator)
    (left right : Node) : Parse Node := do
  let right ← checkStep operator left right
  return ⟨.binary operator.name left right operator.span,
    left.span.merge right.span⟩

/- Take the next operator if it binds tightly enough. -/
def eatInfix
    (precedence : Nat) : Parse (Option InfixOperator) := do
  match infixAhead? (← rest) with
  | none => return none
  | some i =>
      if i.binding.precedence < precedence then
        return none
      else
        skip i.length
        skipLineEnds
        return some i

/-
  Join an operand with the operators and operands that follow,
  one level for each.
-/
def folds
    (levels : Levels)
    (precedence : Nat)
    (context : Context) : Nat → Node → Parse Node
| 0, left => do
    match ← eatInfix precedence with
    | none => return left
    | some i => do
        let right ← tooDeep
        joined i left right
| h + 1, left => do
    match ← eatInfix precedence with
    | none => return left
    | some i => do
        let right ← levels h i.binding.rightPrecedence context
        let larger ← joined i left right
        folds levels precedence context h larger

------------------------------------------------------------
-- Expressions
------------------------------------------------------------

/- An expression over parsers for the expressions inside it. -/
def expressionOver
    (levels : Levels) : Levels
| 0, _, _ => tooDeep
| h + 1, precedence, context =>
    nested do
      let left ← operand levels h context
      folds levels precedence context h left

/- Expressions nested at most so many times. -/
def expression : Nat → Levels
| 0 => fun _ _ _ => tooDeep
| n + 1 => expressionOver (expression n)

end Parse

------------------------------------------------------------
-- Documents
------------------------------------------------------------

/- How deep expressions may be nested. -/
def maxNesting : Nat :=
  64

/- How many levels a tree may have. -/
def maxHeight : Nat :=
  128

namespace Document

/- The span from the first to the last of some lexemes. -/
def spanOf : List Lexeme → Span
| [] => Span.none
| l :: ls => Parse.coveringSpan l ls

end Document

/- The expressions of some lexemes, and the state behind them. -/
def parseLexemes
    (lexemes : List Lexeme) : List Node × ParseState :=
  Parse.statements (Parse.expression maxNesting maxHeight)
    (fun _ => false) (ParseState.start lexemes)

/- The expressions of a list of tokens, and the errors in it. -/
def parse
    (tokens : List Token) : Document × List ParseError :=
  let lexemes := Lexeme.ofTokens tokens
  let (expressions, s) := parseLexemes lexemes
  (⟨expressions, Document.spanOf lexemes⟩, s.errors)

end ElixirReader
