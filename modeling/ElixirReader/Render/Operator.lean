import ElixirReader.Parser.Precedence

/-
  This file defines how the operators of terms bind, by their
  names.

  Key definitions include:
    * `OperatorName.binding?`
    * `OperatorName.isUnary`
-/

namespace ElixirReader.OperatorName

------------------------------------------------------------
-- Operators between two operands
------------------------------------------------------------

/- The operators between two operands, level by level. -/
def levels : List (Binding × List String) :=
  [(⟨40, .left⟩, ["<-", "\\\\"]),
   (⟨Precedence.whenGuard, .right⟩, ["when"]),
   (⟨60, .right⟩, ["::"]),
   (⟨Precedence.pipe, .right⟩, ["|"]),
   (⟨80, .right⟩, ["=>"]),
   (⟨100, .right⟩, ["="]),
   (⟨120, .left⟩, ["||", "|||", "or"]),
   (⟨130, .left⟩, ["&&", "&&&", "and"]),
   (⟨140, .left⟩, ["==", "!=", "=~", "===", "!=="]),
   (⟨150, .left⟩, ["<", ">", "<=", ">="]),
   (⟨160, .left⟩,
     ["|>", "<<<", ">>>", "<<~", "~>>", "<~", "~>", "<~>", "<|>"]),
   (⟨Precedence.membership, .left⟩, ["in"]),
   (⟨180, .left⟩, ["^^^"]),
   (⟨200, .right⟩, ["++", "--", "..", "<>"]),
   (⟨Precedence.addition, .left⟩, ["+", "-"]),
   (⟨220, .left⟩, ["*", "/"]),
   (⟨230, .left⟩, ["**"])]

/- How an operator between two operands binds, if it is one. -/
def binding?
    (name : String) : Option Binding :=
  (levels.find? (fun (_, names) => names.contains name)).map (·.1)

/- How `..` binds. -/
def range : Binding :=
  ⟨200, .right⟩

/- How `not in` binds. -/
def notIn : Binding :=
  ⟨Precedence.membership, .left⟩

------------------------------------------------------------
-- Operators in front of an operand
------------------------------------------------------------

def unaryNames : List String :=
  ["-", "+", "!", "^", "not", "~~~"]

def isUnary
    (name : String) : Bool :=
  unaryNames.contains name

end ElixirReader.OperatorName
