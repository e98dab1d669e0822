import ElixirReader.Term.Code
import ElixirReader.Token.Span

/-
  This file defines what quoted calls say about their place in
  the source.

  Key definitions include:
    * `Metadata`
    * `Metadata.entries`
    * `Metadata.term`
-/

namespace ElixirReader

------------------------------------------------------------
-- Metadata
------------------------------------------------------------

/- The positions that quoted calls carry. -/
inductive Metadata where
| none
| line
| lineColumn
deriving DecidableEq, Repr, Inhabited

namespace Metadata

/- What is said about the start of a span. -/
def entries : Metadata → Span → List (String × Term)
| .none, _ => []
| .line, s => [("line", .integer s.line)]
| .lineColumn, s =>
    [("line", .integer s.line), ("column", .integer s.column)]

def term
    (m : Metadata)
    (s : Span) : Term :=
  Term.keywords (m.entries s)

end Metadata

end ElixirReader
