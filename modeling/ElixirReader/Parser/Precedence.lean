import ElixirReader.Token.Kind

/-
  This file defines how tightly operators bind, and the classes
  of tokens by which expressions start and end.

  Key definitions include:
    * `Associativity`
    * `Binding`
    * `Kind.binding?`
    * `Kind.isBoundary`
    * `Kind.startsArgument`
-/

namespace ElixirReader

------------------------------------------------------------
-- Binding
------------------------------------------------------------

inductive Associativity where
| left
| right
deriving DecidableEq, Repr, Inhabited

structure Binding where
  precedence : Nat
  associativity : Associativity
deriving DecidableEq, Repr, Inhabited

namespace Precedence

def whenGuard : Nat :=
  50

def pipe : Nat :=
  70

def capture : Nat :=
  90

def membership : Nat :=
  170

/- `//` behind a range binds less tightly than the range. -/
def step : Nat :=
  190

def addition : Nat :=
  210

def unary : Nat :=
  250

end Precedence

namespace Binding

/- The least precedence of the operand on the right. -/
def rightPrecedence
    (b : Binding) : Nat :=
  match b.associativity with
  | .left => b.precedence + 1
  | .right => b.precedence

end Binding

/- How an operator between two operands binds, if it is one. -/
def Operator.binding? : Operator → Option Binding
| .inMatch => some ⟨40, .left⟩
| .whenWord => some ⟨Precedence.whenGuard, .right⟩
| .pipe => some ⟨Precedence.pipe, .right⟩
| .association => some ⟨80, .right⟩
| .matching => some ⟨100, .right⟩
| .orSymbol => some ⟨120, .left⟩
| .orWord => some ⟨120, .left⟩
| .andSymbol => some ⟨130, .left⟩
| .andWord => some ⟨130, .left⟩
| .comparison => some ⟨140, .left⟩
| .relational => some ⟨150, .left⟩
| .arrow => some ⟨160, .left⟩
| .inWord => some ⟨Precedence.membership, .left⟩
| .xor => some ⟨180, .left⟩
| .concatenation => some ⟨200, .right⟩
| .range => some ⟨200, .right⟩
| .addition => some ⟨Precedence.addition, .left⟩
| .subtraction => some ⟨Precedence.addition, .left⟩
| .multiplication => some ⟨220, .left⟩
| .division => some ⟨220, .left⟩
| .power => some ⟨230, .left⟩
| .negation => none
| .identity => none
| .unary => none
| .notWord => none
| .atSign => none
| .capture => none
| .stab => none
| .struct => none

namespace Kind

def binding? : Kind → Option Binding
| doubleColon => some ⟨60, .right⟩
| operator o => o.binding?
| _ => none

------------------------------------------------------------
-- Starts and ends of expressions
------------------------------------------------------------

/- The words that end a part of a do block. -/
def endsBlock : Kind → Bool
| word .end => true
| word .else => true
| word .after => true
| word .rescue => true
| word .catch => true
| _ => false

/- The kinds that are left in place where an operand should be. -/
def isBoundary : Kind → Bool
| endOfLine => true
| semicolon => true
| comma => true
| closing _ => true
| interpolationEnd => true
| operator .stab => true
| word .do => true
| k => k.endsBlock

/- The operators that may start an argument. -/
def startsOperand : Operator → Bool
| .struct => true
| .capture => true
| .atSign => true
| .unary => true
| .notWord => true
| .negation => true
| .identity => true
| _ => false

/- The reserved words that may start an argument. -/
def startsLiteral : Word → Bool
| .fn => true
| .true => true
| .false => true
| .nil => true
| _ => false

/-
  The kinds that may start the first argument of a call
  without parentheses.
-/
def startsArgument : Kind → Bool
| identifier => true
| .alias => true
| atomName => true
| colon => true
| characterMark => true
| promoter .string _ => true
| promoter .charlist _ => true
| tilde => true
| opening _ => true
| operator o => startsOperand o
| word w => startsLiteral w
| badCharacter => true
| k => k.isNumberPart

end Kind

end ElixirReader
