import ElixirReader.Parser.Precedence
import ElixirReader.Parser.Recovery

/-
  This file defines what the next lexemes are the start of:
  an operator between two operands, an argument, a keyword
  key, or the head of a clause.

  Key definitions include:
    * `InfixOperator`
    * `infixAhead?`
    * `captureArgumentAhead`
    * `argumentAhead`
    * `keywordAhead`
    * `parenthesizedHeadAhead`
-/

namespace ElixirReader

------------------------------------------------------------
-- Operators between operands
------------------------------------------------------------

/- An operator, and the number of lexemes up to its end. -/
structure InfixOperator where
  length : Nat
  binding : Binding
  name : String
  span : Span
deriving DecidableEq, Repr

namespace InfixOperator

/- An operator of one lexeme, if it binds. -/
def single?
    (l : Lexeme) : Option InfixOperator :=
  l.kind.binding?.map (⟨1, ·, l.text, l.span⟩)

/- An operator of two lexemes. -/
def pair
    (binding : Binding)
    (name : String)
    (l l' : Lexeme) : InfixOperator :=
  ⟨2, binding, name, l.span.merge l'.span⟩

/- `not in`, if `in` follows. -/
def notIn?
    (l : Lexeme) : List Lexeme → Option InfixOperator
| [] => none
| l' :: _ =>
    if l'.kind = .operator .inWord then
      some (pair ⟨Precedence.membership, .left⟩ "not in" l l')
    else
      none

/- `//`, if a second slash touches the first; else a division. -/
def slash?
    (l : Lexeme) : List Lexeme → Option InfixOperator
| [] => single? l
| l' :: _ =>
    if l'.kind = .operator .division ∧ l'.spaced = false then
      some (pair ⟨Precedence.step, .right⟩ "//" l l')
    else
      single? l

/- A sign that was read as unary joins operands of one line. -/
def sign?
    (newline : Bool)
    (l : Lexeme) : Option InfixOperator :=
  if newline then none
  else some ⟨1, ⟨Precedence.addition, .left⟩, l.text, l.span⟩

/- The operator that starts at a lexeme. -/
def at?
    (newline : Bool)
    (l : Lexeme)
    (ls : List Lexeme) : Option InfixOperator :=
  match l.kind with
  | .operator .notWord => notIn? l ls
  | .operator .division => slash? l ls
  | .operator .negation => sign? newline l
  | .operator .identity => sign? newline l
  | _ => single? l

end InfixOperator

/-
  The operator that continues an expression. It may stand at
  the start of a later line.
-/
def infixAhead?
    (ls : List Lexeme) : Option InfixOperator :=
  let n := Parse.runLength Parse.isLineEnd ls
  match ls.drop n with
  | [] => none
  | l :: rest =>
      (InfixOperator.at? (n != 0) l rest).map fun i =>
        { i with length := n + i.length }

------------------------------------------------------------
-- Arguments
------------------------------------------------------------

/- Whether the index of a capture touches what is before it. -/
def captureArgumentAhead : List Lexeme → Bool
| [] => false
| l :: _ => l.kind == .digits .decimal && !l.spaced

/-
  Whether an argument of a call without parentheses starts
  here. Trivia separate it from the name of the call.
-/
def argumentAhead : List Lexeme → Bool
| [] => false
| l :: ls =>
    l.spaced &&
      (if l.kind = .operator .notWord then
        !ls.head?.any (·.kind == .operator .inWord)
      else
        l.kind.startsArgument)

------------------------------------------------------------
-- Keyword keys
------------------------------------------------------------

/- Whether what follows a quoted key is the value of a pair. -/
def keyColonAhead : List Lexeme → Bool
| [] => false
| l :: ls =>
    l.kind == .colon && !l.spaced &&
      ls.head?.all (fun next => next.spaced || next.kind == .endOfLine)

/-
  Whether a quoted text, with some interpolations open, is
  ended and followed by the colon of a key.
-/
def quotedKeyAhead : Nat → List Lexeme → Bool
| _, [] => false
| depth, l :: ls =>
    match l.kind with
    | .interpolationStart => quotedKeyAhead (depth + 1) ls
    | .interpolationEnd => quotedKeyAhead (depth - 1) ls
    | .terminator .string .quoted =>
        if depth = 0 then keyColonAhead ls else quotedKeyAhead depth ls
    | .terminator .charlist .quoted =>
        if depth = 0 then keyColonAhead ls else quotedKeyAhead depth ls
    | _ => quotedKeyAhead depth ls

/- Whether a pair of a key and a value starts here. -/
def keywordAhead : List Lexeme → Bool
| [] => false
| l :: ls =>
    match l.kind with
    | .atomName => true
    | .promoter .string .quoted => quotedKeyAhead 0 ls
    | .promoter .charlist .quoted => quotedKeyAhead 0 ls
    | _ => false

/-
  The number of lexemes up to the next pair: a comma, perhaps
  newlines, and a key.
-/
def pairSeparator? : List Lexeme → Option Nat
| [] => none
| l :: ls =>
    let n := Parse.runLength Parse.isLineEnd ls
    if l.kind = .comma ∧ keywordAhead (ls.drop n) then some (n + 1)
    else none

------------------------------------------------------------
-- Heads of clauses
------------------------------------------------------------

/- Whether an arrow or a guard follows. -/
def arrowAhead : List Lexeme → Bool
| [] => false
| l :: _ => l.kind == .operator .stab || l.kind == .operator .whenWord

/-
  Whether the construct that closes the last of the open ones
  is followed by an arrow or a guard.
-/
def headAhead : Nat → List Lexeme → Bool
| _, [] => false
| depth, l :: ls =>
    if l.kind.opens then headAhead (depth + 1) ls
    else if l.kind.closes then
      if depth - 1 = 0 then arrowAhead ls else headAhead (depth - 1) ls
    else headAhead depth ls

/- Whether the parentheses that start here are a clause's head. -/
def parenthesizedHeadAhead
    (ls : List Lexeme) : Bool :=
  headAhead 0 ls

end ElixirReader
