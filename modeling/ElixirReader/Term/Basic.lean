import ElixirReader.Decimal.Binary64

/-
  This file defines terms, the data that code is quoted to:
  atoms, numbers, binaries, lists and tuples.

  Key definitions include:
    * `Term`
    * `Term.call`
    * `Term.keywords`
    * `Term.isKeyword`
    * `Term.keywordGet?`
    * `Term.depth`
    * `Term.same`
-/

namespace ElixirReader

------------------------------------------------------------
-- Terms
------------------------------------------------------------

inductive Term where
/- An atom by its full name, so `Kernel` is `Elixir.Kernel`. -/
| atom (name : String)
| integer (value : Int)
| float (value : Binary64)
| binary (text : String)
| list (items : List Term)
| tuple (items : List Term)
deriving Repr, Inhabited

namespace Term

/- The atom that names a module. -/
def moduleAtom
    (name : String) : Term :=
  .atom ("Elixir." ++ name)

def nil : Term :=
  .atom "nil"

def boolean
    (value : Bool) : Term :=
  .atom (if value then "true" else "false")

def pair
    (first second : Term) : Term :=
  .tuple [first, second]

/- A call, or any other form, by its name. -/
def call
    (name metadata args : Term) : Term :=
  .tuple [name, metadata, args]

/- A list of pairs whose keys are atoms. -/
def keywords
    (pairs : List (String × Term)) : Term :=
  .list (pairs.map fun (key, value) => pair (.atom key) value)

/- The code points of a text, one by one. -/
def codePoints
    (text : String) : Term :=
  .list (text.toList.map fun c => .integer c.toNat)

------------------------------------------------------------
-- Views
------------------------------------------------------------

def atom? : Term → Option String
| .atom name => some name
| _ => none

def list? : Term → Option (List Term)
| .list items => some items
| _ => none

def tuple? : Term → Option (List Term)
| .tuple items => some items
| _ => none

def isAtom
    (name : String)
    (t : Term) : Bool :=
  t.atom? == some name

def isNil
    (t : Term) : Bool :=
  t.isAtom "nil"

/- The key and value of a pair whose key is an atom. -/
def keyed? : Term → Option (String × Term)
| .tuple [.atom key, value] => some (key, value)
| _ => none

def isKeyed
    (t : Term) : Bool :=
  t.keyed?.isSome

/- Whether some terms are all pairs with an atom key. -/
def areKeyed
    (items : List Term) : Bool :=
  items ≠ [] && items.all isKeyed

/- Whether a term is a list of pairs with atom keys, not empty. -/
def isKeyword : Term → Bool
| .list items => areKeyed items
| _ => false

/- The value of a pair that has a key. -/
def valueAt?
    (key : String)
    (t : Term) : Option Term :=
  match t.keyed? with
  | some (k, value) => if k = key then some value else none
  | none => none

/- The value of the first pair that has a key. -/
def keywordGet?
    (key : String) : Term → Option Term
| .list items => items.findSome? (valueAt? key)
| _ => none

------------------------------------------------------------
-- Size
------------------------------------------------------------

/- The number of terms on the longest way down a term. -/
mutual
def depth : Term → Nat
| .list items => depths items + 1
| .tuple items => depths items + 1
| .atom _ => 1
| .integer _ => 1
| .float _ => 1
| .binary _ => 1
termination_by structural t => t

def depths : List Term → Nat
| [] => 0
| t :: ts => max t.depth (depths ts)
termination_by structural ts => ts
end

------------------------------------------------------------
-- Equality
------------------------------------------------------------

/- Equality up to a relation between floating point numbers. -/
mutual
def sameUpTo
    (floats : Binary64 → Binary64 → Bool) : Term → Term → Bool
| .atom m, .atom n => m == n
| .integer v, .integer w => v == w
| .float x, .float y => floats x y
| .binary v, .binary w => v == w
| .list ts, .list us => allSameUpTo floats ts us
| .tuple ts, .tuple us => allSameUpTo floats ts us
| _, _ => false
termination_by structural t => t

def allSameUpTo
    (floats : Binary64 → Binary64 → Bool) :
    List Term → List Term → Bool
| [], [] => true
| t :: ts, u :: us => sameUpTo floats t u && allSameUpTo floats ts us
| _, _ => false
termination_by structural ts => ts
end

/-
  Equality of values. A floating point number that is none
  differs from all, and the two zeros are one.
-/
def same
    (t u : Term) : Bool :=
  sameUpTo Binary64.same t u

mutual
theorem sameUpTo_beq_iff
    (t u : Term) :
    sameUpTo (· == ·) t u = true ↔ t = u := by
  cases t <;> cases u <;> simp [sameUpTo, allSameUpTo_beq_iff]
termination_by structural t

theorem allSameUpTo_beq_iff
    (ts us : List Term) :
    allSameUpTo (· == ·) ts us = true ↔ ts = us := by
  cases ts with
  | nil => cases us <;> simp [allSameUpTo]
  | cons t ts =>
      cases us with
      | nil => simp [allSameUpTo]
      | cons u us =>
          simp [allSameUpTo, sameUpTo_beq_iff t u,
            allSameUpTo_beq_iff ts us]
termination_by structural ts
end

instance : DecidableEq Term :=
  fun t u => decidable_of_iff _ (sameUpTo_beq_iff t u)

end Term

end ElixirReader
