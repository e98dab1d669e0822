import ElixirReader.Term.Code

/-
  This file defines walks over terms, parents before children.
  A walk changes every term that it visits and goes on below
  the result. The metadata of calls is not visited, nor is a
  name that is an atom.

  Key definitions include:
    * `Term.visitedParts`
    * `Term.withVisitedParts`
    * `Term.walk?`
    * `Term.Change`
    * `Term.Change.walk?`
-/

namespace ElixirReader

namespace Term

------------------------------------------------------------
-- Parts of a term
------------------------------------------------------------

/- The parts of a term that a walk visits. -/
def visitedParts : Term → List Term
| .list items => items
| .tuple [.atom _, .list _, args] => [args]
| .tuple [name, .list _, args] => [name, args]
| .tuple items => items
| _ => []

/- A term with other parts in place of those that are visited. -/
def withVisitedParts : Term → List Term → Term
| .list _, parts => .list parts
| .tuple [.atom name, .list metadata, _], [args] =>
    .tuple [.atom name, .list metadata, args]
| .tuple [_, .list metadata, _], [name, args] =>
    .tuple [name, .list metadata, args]
| .tuple _, parts => .tuple parts
| t, _ => t

theorem withVisitedParts_visitedParts
    (t : Term) :
    t.withVisitedParts t.visitedParts = t := by
  fun_cases visitedParts t <;> simp_all [withVisitedParts]

------------------------------------------------------------
-- Walks
------------------------------------------------------------

/- The terms that a walk met, in order, and what it made. -/
structure Walk where
  visited : List Term
  result : Term
deriving Repr, Inhabited

/- Put walks below a term together. -/
def Walk.above
    (visited changed : Term)
    (below : List Walk) : Walk :=
  ⟨visited :: below.flatMap Walk.visited,
    changed.withVisitedParts (below.map Walk.result)⟩

/-
  Walk over a term at most so many levels deep. A change that
  makes ever deeper terms has no walk.
-/
def walk?
    (change : Term → Term) : Nat → Term → Option Walk
| 0, _ => none
| n + 1, t =>
    ((change t).visitedParts.mapM (walk? change n)).map
      (Walk.above t (change t))

------------------------------------------------------------
-- Changes
------------------------------------------------------------

/- What becomes of a single term. -/
inductive Change where
| keep
/- Put one term in place of another. -/
| replace (old new : Term)
/- Empty the metadata of a call. -/
| dropMetadata
/- Add one to an integer. -/
| increment
deriving Repr

namespace Change

def apply : Change → Term → Term
| .keep, t => t
| .replace old new, t => if t.same old then new else t
| .dropMetadata, .tuple [name, .list _, args] =>
    .tuple [name, .list [], args]
| .dropMetadata, t => t
| .increment, .integer value => .integer (value + 1)
| .increment, t => t

/- How much deeper a change can make a term. -/
def addedDepth : Change → Nat
| .replace _ new => new.depth
| _ => 0

/- Walk over a term with a change. -/
def walk?
    (c : Change)
    (t : Term) : Option Walk :=
  t.walk? c.apply (t.depth + c.addedDepth)

end Change

end Term

end ElixirReader
