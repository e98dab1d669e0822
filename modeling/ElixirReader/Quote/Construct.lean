import ElixirReader.Quote.Metadata
import ElixirReader.Tree.Parts

/-
  This file defines the terms of the constructs of the language
  from the terms of their parts: operators, calls, maps,
  clauses, and quoted literals with interpolations.

  Key definitions include:
    * `Quoted`
    * `Construct.form`
    * `Construct.remote`
    * `Construct.operator`
    * `Construct.range`
    * `Construct.call`
    * `Construct.map`
    * `Construct.clause`
    * `Construct.text`
-/

namespace ElixirReader

/- The term of a node, and where the node stands. -/
structure Quoted where
  term : Term
  span : Span
deriving Repr, Inhabited

namespace Construct

variable (m : Metadata)

------------------------------------------------------------
-- Calls
------------------------------------------------------------

/- A construct that stands at a span, by its name. -/
def form
    (span : Span)
    (name : String)
    (args : List Term) : Term :=
  .call (.atom name) (m.term span) (.list args)

/- What stands on both sides of a dot. -/
def dot
    (span : Span)
    (parts : List Term) : Term :=
  form m span "." parts

/- A call of a function of a module. -/
def remote
    (span : Span)
    (module : Term)
    (function : String)
    (args : List Term) : Term :=
  .call (dot m span [module, .atom function]) (m.term span) (.list args)

/-
  The metadata of a remote call. It tells a call without
  arguments from a field.
-/
def remoteMetadata
    (span : Span)
    (parentheses : Bool)
    (args : List Term) : Term :=
  if !parentheses && args.isEmpty then
    .keywords (("no_parens", .boolean true) :: m.entries span)
  else
    m.term span

/- A call of a target. -/
def call
    (span : Span)
    (target : Target Quoted)
    (parentheses : Bool)
    (args : List Term) : Term :=
  match target with
  | .bare name => form m span name args
  | .remote receiver name at' nameSpan =>
      .call (dot m at' [receiver.term, .atom name])
        (remoteMetadata m nameSpan parentheses args) (.list args)
  | .anonymous function at' =>
      .call (dot m at' [function.term]) (m.term at') (.list args)

/- The value under a key, by the call that looks it up. -/
def access
    (span : Span)
    (subject key : Term) : Term :=
  remote m span (.moduleAtom "Access") "get" [subject, key]

------------------------------------------------------------
-- Operators
------------------------------------------------------------

/- An operator between two operands; `not in` is two of them. -/
def operator
    (span : Span)
    (name : String)
    (left right : Term) : Term :=
  if name = "not in" then
    form m span "not" [form m span "in" [left, right]]
  else
    form m span name [left, right]

/- A range with a step. -/
def range
    (span : Span)
    (first last step : Term) : Term :=
  form m span "..//" [first, last, step]

------------------------------------------------------------
-- Containers
------------------------------------------------------------

/- Two elements are a tuple as it is; others need a name. -/
def tuple
    (span : Span) : List Term → Term
| [first, second] => .pair first second
| items => form m span "\x7b\x7d" items

/- A map, perhaps an update of another one. -/
def map
    (span : Span)
    (update : Option Quoted)
    (entries : List Term) : Term :=
  match update with
  | some base =>
      form m span "%\x7b\x7d"
        [form m base.span "|" [base.term, .list entries]]
  | none => form m span "%\x7b\x7d" entries

------------------------------------------------------------
-- Clauses
------------------------------------------------------------

/- A clause without a body gives `nil`. -/
def clauseBody : List Term → Term
| [] => .nil
| terms => .block terms

/- The head of a clause, one term if there is a guard. -/
def clauseHead
    (arrow : Span)
    (head : List Term)
    (guard : Option Term) : List Term :=
  match guard with
  | some g => [form m arrow "when" (head ++ [g])]
  | none => head

def clause
    (arrow : Span)
    (head : List Term)
    (guard : Option Term)
    (body : List Term) : Term :=
  form m arrow "->" [.list (clauseHead m arrow head guard), clauseBody body]

------------------------------------------------------------
-- Quoted literals
------------------------------------------------------------

/- The text of an interpolated expression. -/
def conversion
    (q : Quoted) : Term :=
  remote m q.span (.moduleAtom "Kernel") "to_string" [q.term]

/- A part of a binary. -/
def binaryPart : Part Quoted → Term
| .literal text => .binary text
| .interpolation q =>
    form m q.span "::"
      [conversion m q, .call (.atom "binary") (m.term q.span) .nil]

/- A part of a list of characters. -/
def charlistPart : Part Quoted → Term
| .literal text => .binary text
| .interpolation q => conversion m q

/- The binary that is put together from parts. -/
def binary
    (span : Span)
    (decode : Bool)
    (t : Text Quoted) : Term :=
  form m span "<<>>" ((t.parts decode).map (binaryPart m))

def string
    (span : Span)
    (t : Text Quoted) : Term :=
  match t.literal? with
  | some text => .binary text
  | none => binary m span true t

def charlist
    (span : Span)
    (t : Text Quoted) : Term :=
  match t.literal? with
  | some text => .codePoints text
  | none =>
      remote m span (.moduleAtom "List") "to_charlist"
        [.list ((t.parts true).map (charlistPart m))]

def text
    (span : Span)
    (t : Text Quoted) : Term :=
  match t.kind with
  | .string => string m span t
  | .charlist => charlist m span t

def quotedAtom
    (span : Span)
    (t : Text Quoted) : Term :=
  match t.literal? with
  | some text => .atom text
  | none =>
      remote m span (.atom "erlang") "binary_to_atom"
        [binary m span true t, .atom "utf8"]

/- A sigil keeps its escapes. -/
def sigil
    (span : Span)
    (name : String)
    (t : Text Quoted)
    (modifiers : String) : Term :=
  form m span ("sigil_" ++ name) [binary m span false t, .codePoints modifiers]

end Construct

end ElixirReader
