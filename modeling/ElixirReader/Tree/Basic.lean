import ElixirReader.Decimal.Binary64
import ElixirReader.Token.Span

/-
  This file defines the syntax tree: what each form of the
  language consists of, and nodes, which are forms with their
  place in the source. A form is given over the type of the
  nodes below it.

  Key definitions include:
    * `Segment`
    * `Text`
    * `Clause`
    * `Body`
    * `DoBlock`
    * `Target`
    * `Entries`
    * `Form`
    * `Node`
    * `Document`
-/

namespace ElixirReader

------------------------------------------------------------
-- Texts
------------------------------------------------------------

/- A piece of a quoted literal, as it is written. -/
inductive Segment (ν : Type) where
| fragment (text : String)
/- An escape, backslash included. -/
| escape (text : String)
/- The blanks at the start of a heredoc line. -/
| indent (blanks : String)
| interpolation (node : ν)
deriving DecidableEq, Repr

/- What a quoted literal makes of its characters. -/
inductive TextKind where
| string
| charlist
deriving DecidableEq, Repr, Inhabited

/-
  The inside of a quoted literal. `indent` is the number of
  characters before the terminator of a heredoc, which every
  line loses.
-/
structure Text (ν : Type) where
  kind : TextKind
  heredoc : Bool
  indent : Nat
  segments : List (Segment ν)
deriving DecidableEq, Repr

------------------------------------------------------------
-- Blocks
------------------------------------------------------------

/- A head, perhaps a guard, and what they lead to. -/
structure Clause (ν : Type) where
  head : List ν
  guard : Option ν
  body : List ν
  arrow : Span
deriving DecidableEq, Repr

inductive Body (ν : Type) where
| expressions (nodes : List ν)
| clauses (clauses : List (Clause ν))
deriving DecidableEq, Repr

/- A part of a do block, with the word that opens it. -/
structure Section (ν : Type) where
  name : String
  body : Body ν
deriving DecidableEq, Repr

structure DoBlock (ν : Type) where
  sections : List (Section ν)
  span : Span
deriving DecidableEq, Repr

------------------------------------------------------------
-- Calls and maps
------------------------------------------------------------

/- What is called. -/
inductive Target (ν : Type) where
| bare (name : String)
| remote (receiver : ν) (name : String) (dot : Span) (nameSpan : Span)
| anonymous (function : ν) (dot : Span)
deriving DecidableEq, Repr

/- The entries of a map, perhaps an update of another map. -/
structure Entries (ν : Type) where
  update : Option ν
  entries : List ν
deriving DecidableEq, Repr

------------------------------------------------------------
-- Forms and nodes
------------------------------------------------------------

inductive Form (ν : Type) where
| integer (value : Int)
| float (value : Binary64)
/- A character literal, by its code point. -/
| char (code : Nat)
| boolean (value : Bool)
| nil
| atom (name : String)
| quotedAtom (text : Text ν)
| text (text : Text ν)
| sigil (name : String) (text : Text ν) (modifiers : String)
/- A bare name without arguments. -/
| identifier (name : String)
/- Names joined by dots, perhaps behind another expression. -/
| alias (base : Option ν) (segments : List String)
| call
    (target : Target ν)
    (arguments : List ν)
    (parentheses : Bool)
    (doBlock : Option (DoBlock ν))
| unary (operator : String) (operand : ν)
| binary (operator : String) (left right : ν) (operatorSpan : Span)
| access (subject key : ν)
| list (items : List ν)
/- A run of pairs at the end of some elements. -/
| keywords (pairs : List (ν × ν))
| tuple (items : List ν)
| map (entries : Entries ν)
| struct (name : ν) (entries : Entries ν)
| bitstring (items : List ν)
/- Expressions in parentheses, or in an interpolation. -/
| block (nodes : List ν)
| fn (clauses : List (Clause ν))
/- In place of what could not be read. -/
| error (message : String)
deriving DecidableEq, Repr

/- A form and the stretch of the source that it covers. -/
inductive Node where
| mk (form : Form Node) (span : Span)

namespace Node

def form : Node → Form Node
| ⟨f, _⟩ => f

def span : Node → Span
| ⟨_, s⟩ => s

instance : Inhabited Node :=
  ⟨⟨.nil, Span.none⟩⟩

/- A node in place of what could not be read. -/
def failure
    (message : String)
    (span : Span) : Node :=
  ⟨.error message, span⟩

end Node

/- The expressions of a source, in order. -/
structure Document where
  expressions : List Node
  span : Span

------------------------------------------------------------
-- Bodies
------------------------------------------------------------

/- Append a node to the body of the last of some clauses. -/
def Clause.pushLast
    (node : ν) : List (Clause ν) → List (Clause ν)
| [] => []
| [c] => [{ c with body := c.body ++ [node] }]
| c :: cs => c :: pushLast node cs

/- Append a node to the last clause, or behind the expressions. -/
def Body.push
    (node : ν) : Body ν → Body ν
| .expressions ns => .expressions (ns ++ [node])
| .clauses cs => .clauses (Clause.pushLast node cs)

end ElixirReader
