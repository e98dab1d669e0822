import ElixirReader.Term.Basic

/-
  This file defines which terms are code, and the shapes that
  code has: calls, variables, aliases and blocks.

  Key definitions include:
    * `Term.call?`
    * `Term.isAliases`
    * `Term.isVariable`
    * `Term.isLocalCall`
    * `Term.isExpression`
    * `Term.metadata?`
    * `Term.block`
-/

namespace ElixirReader.Term

------------------------------------------------------------
-- Calls
------------------------------------------------------------

/- The name, the metadata and the arguments of a call. -/
def call? : Term → Option (Term × List Term × Term)
| .tuple [name, .list metadata, args] => some (name, metadata, args)
| _ => none

/- The arguments of a call by a name. -/
def argsOf?
    (name : String)
    (t : Term) : Option (List Term) :=
  match t.call? with
  | some (.atom n, _, .list args) => if n = name then some args else none
  | _ => none

/- Whether a term is the name of a module in the source. -/
def isAliases
    (t : Term) : Bool :=
  (t.argsOf? "__aliases__").isSome

/- A name with a context in place of arguments. -/
def isVariable
    (t : Term) : Bool :=
  match t.call? with
  | some (.atom _, _, .atom _) => true
  | _ => false

/- A name with arguments. -/
def isLocalCall
    (t : Term) : Bool :=
  match t.call? with
  | some (.atom _, _, .list _) => true
  | _ => false

/- The value of a key in the metadata of a call. -/
def metadata?
    (key : String)
    (t : Term) : Option Term :=
  match t.call? with
  | some (_, metadata, _) => metadata.findSome? (valueAt? key)
  | none => none

------------------------------------------------------------
-- Blocks
------------------------------------------------------------

/- Several expressions one after the other, or none. -/
def blockOf
    (terms : List Term) : Term :=
  call (.atom "__block__") (.list []) (.list terms)

/- A single expression stands for itself. -/
def block : List Term → Term
| [t] => t
| ts => blockOf ts

------------------------------------------------------------
-- Expressions
------------------------------------------------------------

/-
  Whether a term is code: a literal, a list or pair of code,
  or a call whose name and arguments are code.
-/
mutual
def isExpression : Term → Bool
| .atom _ => true
| .integer _ => true
| .float _ => true
| .binary _ => true
| .list items => areExpressions items
| .tuple [first, second] => first.isExpression && second.isExpression
| .tuple [name, .list _, .atom _] => name.isExpression
| .tuple [name, .list _, .list args] =>
    name.isExpression && areExpressions args
| .tuple _ => false
termination_by structural t => t

def areExpressions : List Term → Bool
| [] => true
| t :: ts => t.isExpression && areExpressions ts
termination_by structural ts => ts
end

end ElixirReader.Term
