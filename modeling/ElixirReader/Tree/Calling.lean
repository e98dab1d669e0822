import ElixirReader.Tree.Basic

/-
  This file defines what a node calls: the name of a function
  or operator, its module, and its number of arguments.

  Key definitions include:
    * `Node.functionName?`
    * `Node.moduleName?`
    * `Node.primaryArity?`
    * `Node.resolvedArity?`
    * `Node.hasDo`
    * `Node.isCalling`
    * `Form.name`
-/

namespace ElixirReader

------------------------------------------------------------
-- Names of forms
------------------------------------------------------------

/- The name of a form. -/
def Form.name : Form ν → String
| .integer _ => "Integer"
| .float _ => "Float"
| .char _ => "Char"
| .boolean _ => "Boolean"
| .nil => "Nil"
| .atom _ => "Atom"
| .quotedAtom _ => "QuotedAtom"
| .text _ => "Text"
| .sigil _ _ _ => "Sigil"
| .identifier _ => "Identifier"
| .alias _ _ => "Alias"
| .call _ _ _ _ => "Call"
| .unary _ _ => "Unary"
| .binary _ _ _ _ => "Binary"
| .access _ _ => "Access"
| .list _ => "List"
| .keywords _ => "Keywords"
| .tuple _ => "Tuple"
| .map _ => "Map"
| .struct _ _ => "Struct"
| .bitstring _ => "Bitstring"
| .block _ => "Block"
| .fn _ => "Fn"
| .error _ => "Error"

namespace Node

------------------------------------------------------------
-- What is called
------------------------------------------------------------

/- The name of what is called; an anonymous function has none. -/
def targetName? : Target Node → Option String
| .bare name => some name
| .remote _ name _ _ => some name
| .anonymous _ _ => none

/-
  The name of the function or operator that a node calls. A
  bare identifier may be a call without arguments.
-/
def functionName?
    (n : Node) : Option String :=
  match n.form with
  | .call target _ _ _ => targetName? target
  | .identifier name => some name
  | .unary operator _ => some operator
  | .binary operator _ _ _ => some operator
  | _ => none

/- The module that an expression before a dot names. -/
def receiverModule?
    (receiver : Node) : Option String :=
  match receiver.form with
  | .alias none segments => some (".".intercalate segments)
  | .atom name => some name
  | _ => none

/- The module that is written before a remote call. -/
def moduleName?
    (n : Node) : Option String :=
  match n.form with
  | .call (.remote receiver _ _ _) _ _ _ => receiverModule? receiver
  | _ => none

------------------------------------------------------------
-- Arguments
------------------------------------------------------------

/- The number of arguments as written, without a do block. -/
def primaryArity?
    (n : Node) : Option Nat :=
  match n.form with
  | .call _ arguments _ _ => some arguments.length
  | .identifier _ => some 0
  | .unary _ _ => some 1
  | .binary _ _ _ _ => some 2
  | _ => none

/- The number of arguments that a do block adds. -/
def doArity
    (n : Node) : Nat :=
  match n.form with
  | .call _ _ _ (some _) => 1
  | _ => 0

/- The number of arguments with the do block. -/
def resolvedArity?
    (n : Node) : Option Nat :=
  n.primaryArity?.map (· + n.doArity)

/- Whether a node is the key of a `do` pair. -/
def isDoKey
    (n : Node) : Bool :=
  match n.form with
  | .atom name => name == "do"
  | _ => false

/- Whether a node is a run of pairs that has a `do` key. -/
def hasDoKey
    (n : Node) : Bool :=
  match n.form with
  | .keywords pairs => pairs.any fun (key, _) => key.isDoKey
  | _ => false

/- Whether a call has a do block, or a `do` key at its end. -/
def hasDo
    (n : Node) : Bool :=
  match n.form with
  | .call _ arguments _ doBlock =>
      doBlock.isSome || arguments.getLast?.any hasDoKey
  | _ => false

------------------------------------------------------------
-- Calls into modules
------------------------------------------------------------

/-
  Whether what a node calls lies in a module. Local calls and
  operators are those of `Kernel`, which is always imported.
-/
def callsInto
    (n : Node)
    (module : String) : Bool :=
  match n.form with
  | .call (.remote _ _ _ _) _ _ _ => n.moduleName? == some module
  | .call (.anonymous _ _) _ _ _ => false
  | _ => module == "Kernel"

/- Whether a node calls a function of a module and arity. -/
def isCalling
    (n : Node)
    (module function : String)
    (arity : Nat) : Bool :=
  n.functionName? == some function && n.resolvedArity? == some arity
    && n.callsInto module

end Node

end ElixirReader
