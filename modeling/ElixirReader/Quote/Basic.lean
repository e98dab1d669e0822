import ElixirReader.Quote.Construct

/-
  This file quotes syntax trees: it turns code into the terms
  that stand for it. Every tree has a term, also one that holds
  errors.

  Key definitions include:
    * `Node.quote`
    * `Document.quote`
-/

namespace ElixirReader

namespace Node

/- The term of a node. -/
mutual
def quote
    (m : Metadata) : Node → Term
| ⟨.integer value, _⟩ => .integer value
| ⟨.float value, _⟩ => .float value
| ⟨.char code, _⟩ => .integer code
| ⟨.boolean value, _⟩ => .boolean value
| ⟨.nil, _⟩ => .nil
| ⟨.atom name, _⟩ => .atom name
| ⟨.quotedAtom t, s⟩ => Construct.quotedAtom m s (quoteText m t)
| ⟨.text t, s⟩ => Construct.text m s (quoteText m t)
| ⟨.sigil name t modifiers, s⟩ =>
    Construct.sigil m s name (quoteText m t) modifiers
| ⟨.identifier name, s⟩ => .call (.atom name) (m.term s) .nil
| ⟨.alias base segments, s⟩ =>
    Construct.form m s "__aliases__"
      ((quoteOption m base).toList.map Quoted.term
        ++ segments.map Term.atom)
| ⟨.call target args parentheses none, s⟩ =>
    Construct.call m s (quoteTarget m target) parentheses (quoteAll m args)
| ⟨.call target args parentheses (some ⟨sections, _⟩), s⟩ =>
    Construct.call m s (quoteTarget m target) parentheses
      (quoteAll m args ++ [.list (quoteSections m sections)])
| ⟨.unary operator operand, s⟩ =>
    Construct.form m s operator [operand.quote m]
| ⟨.binary operator ⟨.binary inner first last innerAt, s⟩ right at', _⟩ =>
    if operator = "//" ∧ inner = ".." then
      Construct.range m innerAt (first.quote m) (last.quote m)
        (right.quote m)
    else
      Construct.operator m at' operator
        (quote m ⟨.binary inner first last innerAt, s⟩) (right.quote m)
| ⟨.binary operator left right at', _⟩ =>
    Construct.operator m at' operator (left.quote m) (right.quote m)
| ⟨.access subject key, s⟩ =>
    Construct.access m s (subject.quote m) (key.quote m)
| ⟨.list items, _⟩ => .list (quoteElements m items)
| ⟨.keywords pairs, _⟩ => .list (quotePairs m pairs)
| ⟨.tuple items, s⟩ => Construct.tuple m s (quoteAll m items)
| ⟨.map ⟨update, entries⟩, s⟩ =>
    Construct.map m s (quoteOption m update) (quoteEntries m entries)
| ⟨.struct name ⟨update, entries⟩, s⟩ =>
    Construct.form m s "%"
      [name.quote m,
       Construct.map m s (quoteOption m update) (quoteEntries m entries)]
| ⟨.bitstring items, s⟩ => Construct.form m s "<<>>" (quoteAll m items)
| ⟨.block nodes, _⟩ => .block (quoteAll m nodes)
| ⟨.fn clauses, s⟩ => Construct.form m s "fn" (quoteClauses m clauses)
| ⟨.error message, s⟩ => Construct.form m s "__error__" [.binary message]
termination_by structural n => n

def quoteAll
    (m : Metadata) : List Node → List Term
| [] => []
| n :: ns => n.quote m :: quoteAll m ns
termination_by structural ns => ns

def quoteOption
    (m : Metadata) : Option Node → Option Quoted
| none => none
| some ⟨form, span⟩ => some ⟨quote m ⟨form, span⟩, span⟩
termination_by structural n => n

def quotePairs
    (m : Metadata) : List (Node × Node) → List Term
| [] => []
| (key, value) :: ps =>
    .pair (key.quote m) (value.quote m) :: quotePairs m ps
termination_by structural ps => ps

/- Pairs at the end of a list are elements of it. -/
def quoteElements
    (m : Metadata) : List Node → List Term
| [] => []
| ⟨.keywords pairs, _⟩ :: ns => quotePairs m pairs ++ quoteElements m ns
| n :: ns => n.quote m :: quoteElements m ns
termination_by structural ns => ns

/- The entries of a map are pairs. -/
def quoteEntries
    (m : Metadata) : List Node → List Term
| [] => []
| ⟨.keywords pairs, _⟩ :: ns => quotePairs m pairs ++ quoteEntries m ns
| ⟨.binary operator key value at', s⟩ :: ns =>
    (if operator = "=>" then .pair (key.quote m) (value.quote m)
     else quote m ⟨.binary operator key value at', s⟩) :: quoteEntries m ns
| n :: ns => n.quote m :: quoteEntries m ns
termination_by structural ns => ns

def quoteText
    (m : Metadata) : Text Node → Text Quoted
| ⟨kind, heredoc, indent, segments⟩ =>
    ⟨kind, heredoc, indent, quoteSegments m segments⟩
termination_by structural t => t

def quoteSegments
    (m : Metadata) : List (Segment Node) → List (Segment Quoted)
| [] => []
| .fragment text :: ss => .fragment text :: quoteSegments m ss
| .escape text :: ss => .escape text :: quoteSegments m ss
| .indent blanks :: ss => .indent blanks :: quoteSegments m ss
| .interpolation ⟨form, span⟩ :: ss =>
    .interpolation ⟨quote m ⟨form, span⟩, span⟩ :: quoteSegments m ss
termination_by structural ss => ss

def quoteTarget
    (m : Metadata) : Target Node → Target Quoted
| .bare name => .bare name
| .remote ⟨form, span⟩ name at' nameSpan =>
    .remote ⟨quote m ⟨form, span⟩, span⟩ name at' nameSpan
| .anonymous ⟨form, span⟩ at' => .anonymous ⟨quote m ⟨form, span⟩, span⟩ at'
termination_by structural t => t

def quoteClauses
    (m : Metadata) : List (Clause Node) → List Term
| [] => []
| ⟨head, guard, body, arrow⟩ :: cs =>
    Construct.clause m arrow (quoteAll m head)
      ((quoteOption m guard).map Quoted.term) (quoteAll m body)
      :: quoteClauses m cs
termination_by structural cs => cs

def quoteSections
    (m : Metadata) : List (Section Node) → List Term
| [] => []
| ⟨name, .expressions nodes⟩ :: ss =>
    .pair (.atom name) (.block (quoteAll m nodes)) :: quoteSections m ss
| ⟨name, .clauses clauses⟩ :: ss =>
    .pair (.atom name) (.list (quoteClauses m clauses))
      :: quoteSections m ss
termination_by structural ss => ss
end

end Node

/- A document is quoted like the body of a block. -/
def Document.quote
    (m : Metadata)
    (d : Document) : Term :=
  .block (Node.quoteAll m d.expressions)

end ElixirReader
