import ElixirReader.Render.Construct

/-
  This file writes terms as the code that they stand for.

  Key definitions include:
    * `Term.written`
    * `Term.render`
-/

namespace ElixirReader.Term

------------------------------------------------------------
-- Terms as code
------------------------------------------------------------

/- A term with all that is in it written out. -/
mutual
def written : Term → Written
| .atom name => .atom name
| .integer value => .integer value
| .float value => .float value
| .binary content => .binary content
| .list items => Written.ofItems (writtenAll items)
| .tuple items => Written.ofParts (writtenAll items)
termination_by structural t => t

def writtenAll : List Term → List Written
| [] => []
| t :: ts => t.written :: writtenAll ts
termination_by structural ts => ts
end

/- The source of a term. -/
def render
    (t : Term) : String :=
  String.ofList t.written.text

end ElixirReader.Term
