import ElixirReader.Decimal.Shortest
import ElixirReader.Term.Basic
import ElixirReader.Term.Literal

/-
  This file writes terms as data, every tuple and list with all
  that it holds. Lists of pairs with atom keys are written as
  keywords.

  Key definitions include:
    * `Term.inspect`
-/

namespace ElixirReader.Term

------------------------------------------------------------
-- Terms as data
------------------------------------------------------------

/- The characters of a term as data. -/
mutual
def characters : Term → List Char
| .atom name => Literal.atom name
| .integer value => integerText value
| .float value => value.text
| .binary text => Literal.binary text.toList
| .list items =>
    if areKeyed items then
      "[".toList ++ ", ".toList.intercalate (charactersOfKeyed items)
        ++ "]".toList
    else
      "[".toList ++ ", ".toList.intercalate (charactersOfAll items)
        ++ "]".toList
| .tuple items =>
    "\x7b".toList ++ ", ".toList.intercalate (charactersOfAll items)
      ++ "\x7d".toList
termination_by structural t => t

def charactersOfAll : List Term → List (List Char)
| [] => []
| t :: ts => t.characters :: charactersOfAll ts
termination_by structural ts => ts

/- The characters of those terms that are pairs with an atom key. -/
def charactersOfKeyed : List Term → List (List Char)
| .tuple [.atom key, value] :: ts =>
    (Literal.key key ++ " ".toList ++ value.characters)
      :: charactersOfKeyed ts
| _ :: ts => charactersOfKeyed ts
| [] => []
termination_by structural ts => ts
end

/- The text of a term as data. -/
def inspect
    (t : Term) : String :=
  String.ofList t.characters

end ElixirReader.Term
