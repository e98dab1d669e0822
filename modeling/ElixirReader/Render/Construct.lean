import ElixirReader.Render.Bits
import ElixirReader.Render.Block

/-
  This file writes calls: the constructs that have a form of
  their own, operators, and calls by a name or behind a dot.

  Key definitions include:
    * `Written.mapBody`
    * `Written.binaryOperator`
    * `Written.unaryOperator`
    * `Written.invocation`
    * `Written.construct?`
    * `Written.operator?`
    * `Written.sigil?`
    * `Written.namedCall`
    * `Written.dotCall`
    * `Written.callText`
-/

namespace ElixirReader.Written

------------------------------------------------------------
-- Maps
------------------------------------------------------------

/- A pair of a map. -/
def entry : Written → List Char
| .tuple _ [key, value] => key.text ++ " => ".toList ++ value.text
| w => w.text

/- The pairs of a map, as keywords if all keys are atoms. -/
def entries
    (pairs : List Written) : List Char :=
  if areKeyed pairs then commas (pairs.map keywordText)
  else commas (pairs.map entry)

/- The map that is updated, and the pairs that are put in. -/
def update? : List Written → Option (Written × List Written)
| [w] =>
    match w.argsOf? "|" with
    | some [base, .list _ pairs] => some (base, pairs)
    | _ => none
| _ => none

/- What is between the braces of a map, and the braces. -/
def mapBody
    (items : List Written) : List Char :=
  match update? items with
  | some (base, pairs) =>
      braces (base.text ++ " | ".toList ++ entries pairs)
  | none => braces (entries items)

/- What is behind the name of a struct. -/
def structBody
    (map : Written) : List Char :=
  match map.args? with
  | some items => mapBody items
  | none => map.text

------------------------------------------------------------
-- Operators
------------------------------------------------------------

/- An operator with blanks around it; `..` has none. -/
def operatorSign
    (name : String) : List Char :=
  if name = ".." then name.toList
  else " ".toList ++ name.toList ++ " ".toList

def binaryOperator
    (name : String)
    (binding : Binding)
    (left right : Written) : List Char :=
  operand binding.precedence (binding.associativity == .right) left
    ++ operatorSign name
    ++ operand binding.precedence (binding.associativity == .left) right

/- A range with a step. -/
def steppedRange
    (first last step : Written) : List Char :=
  binaryOperator ".." OperatorName.range first last ++ "//".toList
    ++ operand Precedence.step true step

/-
  Whether an operator and its operand would be taken for
  another operator. Those that may be repeated are not.
-/
def runsInto
    (name : String)
    (operand : List Char) : Bool :=
  name != "!" && name != "not" && name.toList.isPrefixOf operand

/- An operand behind an operator, in parentheses if need be. -/
def behindOperator
    (name : String)
    (operand : List Char) : List Char :=
  if runsInto name operand then parentheses operand else operand

def unaryOperator
    (name : String)
    (w : Written) : List Char :=
  name.toList ++ (if name = "not" then " ".toList else [])
    ++ behindOperator name (tightOperand w)

/- `not` before an operand, or the operator `not in`. -/
def negation
    (w : Written) : List Char :=
  match w.membership? with
  | some (left, right) =>
      binaryOperator "not in" OperatorName.notIn left right
  | none => unaryOperator "not" w

/- An operator with as many operands as it takes. -/
def operator?
    (name : String) : List Written → Option (List Char)
| [w] =>
    if name = "not" then some (negation w)
    else if OperatorName.isUnary name then some (unaryOperator name w)
    else none
| [left, right] =>
    (OperatorName.binding? name).map (binaryOperator name · left right)
| [first, last, step] =>
    if name = "..//" then some (steppedRange first last step) else none
| _ => none

------------------------------------------------------------
-- Calls by a name
------------------------------------------------------------

/- A name that is called, between quotes if it needs them. -/
def callee
    (name : String) : List Char :=
  if Literal.isIdentifier name.toList then name.toList
  else Literal.binary name.toList

/- Arguments in front of a do block. -/
def beforeDo
    (args : List Written) : List Char :=
  if args.isEmpty then [] else " ".toList ++ arguments args

/-
  A name and its arguments. Sections at the end are a do block,
  and then there are no parentheses; there are none either
  around no arguments, if `bare`.
-/
def invocation
    (name : List Char)
    (bare : Bool)
    (args : List Written) : List Char :=
  match args.getLast?.bind sections? with
  | some sections => name ++ beforeDo args.dropLast ++ doBlock sections
  | none =>
      if bare && args.isEmpty then name
      else name ++ parentheses (arguments args)

------------------------------------------------------------
-- Constructs
------------------------------------------------------------

/- A part of the name of a module. -/
def aliasPart : Written → List Char
| .atom name => name.toList
| w => w.text

/- What follows `@`: a name, perhaps with arguments. -/
def attributeText
    (w : Written) : List Char :=
  match w.named? with
  | some (name, first :: rest) =>
      name.toList ++ " ".toList ++ arguments (first :: rest)
  | _ => w.text

/- What follows `&`: a function by its arity, or an expression. -/
def captured
    (w : Written) : List Char :=
  match w.argsOf? "/" with
  | some [function, .integer arity] =>
      function.text ++ "/".toList ++ integerText arity
  | _ => parentheses w.text

def capture : Written → List Char
| .integer index => "&".toList ++ integerText index
| w => "&".toList ++ captured w

/- The constructs with any number of parts. -/
def container?
    (name : String)
    (items : List Written) : Option (List Char) :=
  if name = "__block__" then some (lines (items.map text))
  else if name = "__aliases__" then
    some (".".toList.intercalate (items.map aliasPart))
  else if name = "\x7b\x7d" then some (braces (sequence items []))
  else if name = "%\x7b\x7d" then some ("%".toList ++ mapBody items)
  else if name = "<<>>" then some (bits items)
  else if name = "fn" then some (function items)
  else none

/- The constructs with one part. -/
def mark?
    (name : String)
    (item : Written) : Option (List Char) :=
  if name = "@" then some ("@".toList ++ attributeText item)
  else if name = "&" then some (capture item)
  else none

/- The constructs with two parts. -/
def pair?
    (name : String)
    (first second : Written) : Option (List Char) :=
  if name = "%" then some ("%".toList ++ first.text ++ structBody second)
  else if name = "->" then
    match first with
    | .list _ patterns => some (clause patterns second)
    | _ => none
  else none

/- The constructs that have a form of their own. -/
def construct?
    (name : String)
    (items : List Written) : Option (List Char) :=
  (container? name items).or <|
    match items with
    | [] => if name = ".." then some "..".toList else none
    | [item] => mark? name item
    | [first, second] => pair? name first second
    | _ => none

/- A sigil, by its content and modifiers. -/
def sigil?
    (name : String) : List Written → Option (List Char)
| [.tuple text parts, .list _ letters] =>
    if sigilMark.isPrefixOf name.toList then
      some (sigil name.toList (.tuple text parts) letters)
    else
      none
| _ => none

/- A call by a name. -/
def namedCall
    (name : String)
    (args : List Written) : List Char :=
  (((construct? name args).or (operator? name args)).or
    (sigil? name args)).getD (invocation (callee name) false args)

------------------------------------------------------------
-- Calls behind a dot
------------------------------------------------------------

/- A name behind a dot; operators need no quotes there. -/
def dottedName
    (name : String) : List Char :=
  if Literal.isIdentifier name.toList
      ∨ (OperatorName.binding? name).isSome then
    name.toList
  else
    Literal.binary name.toList

/- Whether metadata says that a call has no parentheses. -/
def isBare
    (metadata : List Written) : Bool :=
  metadata.any fun w =>
    match w with
    | .tuple _ [key, value] => key.isAtom "no_parens" && value.isAtom "true"
    | _ => false

/- The value under a key, as the call of `Access.get` that it is. -/
def lookup?
    (receiver function : Written)
    (args : List Written) : Option (List Char) :=
  match args with
  | [subject, key] =>
      if receiver.isAtom "Elixir.Access" && function.isAtom "get" then
        some (tightOperand subject ++ "[".toList ++ key.text ++ "]".toList)
      else
        none
  | _ => none

/- A call of a function by a name behind a dot. -/
def remoteCall
    (receiver : Written)
    (name : String)
    (metadata args : List Written) : List Char :=
  invocation (tightOperand receiver ++ ".".toList ++ dottedName name)
    (isBare metadata) args

/- A call of what is on both sides of a dot. -/
def dottedCall
    (dot : Written)
    (sides metadata args : List Written) : List Char :=
  match sides with
  | [function] =>
      invocation (tightOperand function ++ ".".toList) false args
  | [receiver, .atom name] =>
      if name = "\x7b\x7d" then
        tightOperand receiver ++ ".".toList ++ braces (sequence args [])
      else
        (lookup? receiver (.atom name) args).getD
          (remoteCall receiver name metadata args)
  | _ => dot.text ++ parentheses (arguments args)

/- A call whose name is a term: a dot, or any other call. -/
def dotCall
    (dot : Written)
    (metadata args : List Written) : List Char :=
  match dot.call? with
  | some (name, _, .list _ sides) =>
      if name.isAtom "." then dottedCall dot sides metadata args
      else parentheses dot.text ++ parentheses (arguments args)
  | _ => dot.text

------------------------------------------------------------
-- Tuples
------------------------------------------------------------

/- A call, or the tuple that it is if it has no other form. -/
def callText
    (name metadata : Written)
    (metadataItems : List Written)
    (args : Written) : List Char :=
  match name, args with
  | .atom n, .atom _ => n.toList
  | .atom n, .list _ items => namedCall n items
  | .tuple content parts, .list _ items =>
      dotCall (.tuple content parts) metadataItems items
  | _, _ => braces (commas [name.text, metadata.text, args.text])

def tupleText : List Written → List Char
| [name, .list content metadata, args] =>
    callText name (.list content metadata) metadata args
| items => braces (sequence items [])

------------------------------------------------------------
-- All terms
------------------------------------------------------------

/- Write a list next to its items. -/
def ofItems
    (items : List Written) : Written :=
  .list (listText items) items

/- Write a tuple next to its items. -/
def ofParts
    (items : List Written) : Written :=
  .tuple (tupleText items) items

end ElixirReader.Written
