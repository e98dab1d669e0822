import ElixirReader.Decimal.Shortest
import ElixirReader.Render.Operator
import ElixirReader.Term.Basic
import ElixirReader.Term.Literal

/-
  This file defines terms in which every list and tuple is
  written out, next to its items. How a construct is written
  depends on the shape of its parts and on their texts, so
  both are kept.

  Key definitions include:
    * `Written`
    * `Written.text`
    * `Written.call?`
    * `Written.precedence?`
    * `Written.operand`
    * `Written.sequence`
    * `Written.arguments`
-/

namespace ElixirReader

------------------------------------------------------------
-- Written terms
------------------------------------------------------------

inductive Written where
| atom (name : String)
| integer (value : Int)
| float (value : Binary64)
| binary (content : String)
| list (text : List Char) (items : List Written)
| tuple (text : List Char) (items : List Written)
deriving Inhabited

namespace Written

/- A written term as it stands in a source. -/
def text : Written → List Char
| .atom name => Literal.atom name
| .integer value => integerText value
| .float value => value.text
| .binary content => Literal.binary content.toList
| .list text _ => text
| .tuple text _ => text

/- Texts with a comma between each two of them. -/
def commas
    (texts : List (List Char)) : List Char :=
  ", ".toList.intercalate texts

/- Texts on a line each. -/
def lines
    (texts : List (List Char)) : List Char :=
  "\n".toList.intercalate texts

def braces
    (text : List Char) : List Char :=
  "\x7b".toList ++ text ++ "\x7d".toList

def parentheses
    (text : List Char) : List Char :=
  "(".toList ++ text ++ ")".toList

------------------------------------------------------------
-- Views
------------------------------------------------------------

def isAtom
    (name : String) : Written → Bool
| .atom n => n == name
| _ => false

/- The name, the metadata and the arguments of a call. -/
def call? : Written → Option (Written × List Written × Written)
| .tuple _ [name, .list _ metadata, args] => some (name, metadata, args)
| _ => none

/- The arguments of a call by any name. -/
def args? : Written → Option (List Written)
| .tuple _ [_, .list _ _, .list _ args] => some args
| _ => none

/- The name and the arguments of a call. -/
def named? : Written → Option (String × List Written)
| .tuple _ [.atom name, .list _ _, .list _ args] => some (name, args)
| _ => none

/- The arguments of a call by one name. -/
def argsOf?
    (name : String)
    (w : Written) : Option (List Written) :=
  w.named?.bind fun (n, args) => if n = name then some args else none

/- The key and the value of a pair with an atom key. -/
def keyed? : Written → Option (String × Written)
| .tuple _ [.atom key, value] => some (key, value)
| _ => none

def isKeyed
    (w : Written) : Bool :=
  w.keyed?.isSome

def areKeyed
    (ws : List Written) : Bool :=
  !ws.isEmpty && ws.all isKeyed

/- The items of a list of pairs with atom keys, not empty. -/
def keyword? : Written → Option (List Written)
| .list _ items => if areKeyed items then some items else none
| _ => none

------------------------------------------------------------
-- Operands
------------------------------------------------------------

/- The operands of `in`. -/
def membership?
    (w : Written) : Option (Written × Written) :=
  match w.argsOf? "in" with
  | some [left, right] => some (left, right)
  | _ => none

/- How tightly an operator with operands binds. -/
def operatorPrecedence?
    (name : String) : List Written → Option Nat
| [operand] =>
    if name = "not" ∧ operand.membership?.isSome then
      some Precedence.membership
    else
      none
| [_, _] => (OperatorName.binding? name).map Binding.precedence
| [_, _, _] => if name = "..//" then some Precedence.step else none
| _ => none

/- How tightly the operator binds that a term applies. -/
def precedence?
    (w : Written) : Option Nat :=
  w.named?.bind fun (name, args) => operatorPrecedence? name args

/-
  Whether an operand needs parentheses inside an operator. An
  operand that binds just as tightly needs them on the side
  where it would be taken for something else.
-/
def needsParentheses
    (outer : Nat)
    (strict : Bool)
    (w : Written) : Bool :=
  w.precedence?.any fun inner =>
    decide (inner < outer) || (strict && inner == outer)

def operand
    (outer : Nat)
    (strict : Bool)
    (w : Written) : List Char :=
  if needsParentheses outer strict w then parentheses w.text else w.text

/- An operand that no operator may stand in bare. -/
def tightOperand
    (w : Written) : List Char :=
  if w.precedence?.isSome then parentheses w.text else w.text

------------------------------------------------------------
-- Sequences
------------------------------------------------------------

/- A pair with an atom key. -/
def keywordText
    (w : Written) : List Char :=
  match w.keyed? with
  | some (key, value) => Literal.key key ++ " ".toList ++ value.text
  | none => []

/- Terms, and pairs behind them that lose their brackets. -/
def sequence
    (terms keywords : List Written) : List Char :=
  commas (terms.map text ++ keywords.map keywordText)

/- The arguments of a call; keywords at the end are bare. -/
def arguments
    (args : List Written) : List Char :=
  match args.getLast?.bind keyword? with
  | some keywords => sequence args.dropLast keywords
  | none => sequence args []

/- The pairs with atom keys at the end of some terms. -/
def keyedTail
    (items : List Written) : List Written :=
  (items.reverse.takeWhile isKeyed).reverse

/- A list; pairs with atom keys at its end are bare. -/
def listText
    (items : List Written) : List Char :=
  "[".toList
    ++ sequence (items.take (items.length - (keyedTail items).length))
        (keyedTail items)
    ++ "]".toList

end Written

end ElixirReader
