import ElixirReader.Parser.Quoted

/-
  This file defines what stands between brackets: lists,
  tuples, bitstrings, maps, structs, and expressions in
  parentheses.

  Key definitions include:
    * `Parse.items`
    * `Parse.enclosed`
    * `Parse.container`
    * `Parse.parenthesized`
    * `Parse.mapBody`
    * `Parse.structOrMap`
-/

namespace ElixirReader.Parse

------------------------------------------------------------
-- Elements
------------------------------------------------------------

/- The pairs that end some elements. -/
def lastItem
    (expr : ExpressionParser) : Parse (List Node) := do
  let pairs ← keywords expr .container
  skipLineEnds
  let _ ← eat .comma
  return [pairs]

/- Elements, with a bound on their number. -/
def itemsFor
    (expr : ExpressionParser)
    (closer : Kind) : Nat → Parse (List Node)
| 0 => do
    cutOff
    return []
| n + 1 => do
    skipLineEnds
    if endsAt (· == closer) (← peek) then
      return []
    else if keywordAhead (← rest) then
      lastItem expr
    else do
      let item ← expr 0 .container
      skipLineEnds
      match ← eat .comma with
      | none => return [item]
      | some _ => return item :: (← itemsFor expr closer n)

/-
  Elements separated by commas up to a closing kind, which is
  left. Pairs come last, and a comma may end the elements.
-/
def items
    (expr : ExpressionParser)
    (closer : Kind) : Parse (List Node) := do
  itemsFor expr closer ((← rest).length + 1)

/- Elements with the brackets around them, and their span. -/
def enclosed
    (expr : ExpressionParser)
    (bracket : Bracket) : Parse (List Node × Span) := do
  let opened ← currentSpan
  skip 1
  let found ← items expr (.closing bracket)
  close (.bracket bracket) opened found

/- A node made of elements between brackets. -/
def container
    (expr : ExpressionParser)
    (bracket : Bracket)
    (form : List Node → Form Node) : Parse Node := do
  let (found, span) ← enclosed expr bracket
  return ⟨form found, span⟩

------------------------------------------------------------
-- Parentheses
------------------------------------------------------------

/- A single expression needs no block around it. -/
def unwrap
    (span : Span) : List Node → Node
| [n] => n
| ns => ⟨.block ns, span⟩

/- Statements in parentheses. -/
def parenthesized
    (expr : ExpressionParser) : Parse Node := do
  let opened ← currentSpan
  skip 1
  let body ← statements expr (· == .closing .parenthesis)
  let (body, span) ← close (.bracket .parenthesis) opened body
  return unwrap span body

------------------------------------------------------------
-- Aliases
------------------------------------------------------------

/- One more segment for an alias, or an alias of an expression. -/
def extendAlias
    (receiver : Node)
    (segment : Lexeme) : Node :=
  match receiver with
  | ⟨.alias base segments, span⟩ =>
      ⟨.alias base (segments ++ [segment.text]), span.merge segment.span⟩
  | ⟨form, span⟩ =>
      ⟨.alias (some ⟨form, span⟩) [segment.text],
        span.merge segment.span⟩

------------------------------------------------------------
-- Maps and structs
------------------------------------------------------------

/- Whether the first entry of a map is no pair of a keyword run. -/
def entryAhead
    (ls : List Lexeme) : Bool :=
  !endsAt (· == .closing .curly) ls.head? && !keywordAhead ls

/- The rest of the entries, behind a first one. -/
def entriesAfter
    (expr : ExpressionParser)
    (first : Node) : Parse (Entries Node) := do
  match ← eat .comma with
  | none => return ⟨none, [first]⟩
  | some _ => return ⟨none, first :: (← items expr (.closing .curly))⟩

/- Entries that start with an expression, perhaps a base to update. -/
def entriesFrom
    (expr : ExpressionParser) : Parse (Entries Node) := do
  let first ← expr (Precedence.pipe + 1) .container
  skipLineEnds
  match ← eat (.operator .pipe) with
  | some _ => return ⟨some first, ← items expr (.closing .curly)⟩
  | none => entriesAfter expr first

/- The entries of a map. -/
def entries
    (expr : ExpressionParser) : Parse (Entries Node) := do
  skipLineEnds
  if entryAhead (← rest) then
    entriesFrom expr
  else
    return ⟨none, ← items expr (.closing .curly)⟩

/- The body of a map or struct with its curlies. -/
def mapBody
    (expr : ExpressionParser) : Parse (Entries Node × Span) := do
  let opened ← currentSpan
  skip 1
  let ⟨update, found⟩ ← entries expr
  let (found, span) ← close (.bracket .curly) opened found
  return (⟨update, found⟩, span)

/- The further segments of a struct's name. -/
def structSegments : Nat → Node → Parse Node
| 0, name => do
    cutOff
    return name
| n + 1, name => do
    match ← rest with
    | l :: segment :: _ =>
        if l.kind = .dot ∧ segment.kind = .alias then
          skip 2
          structSegments n (extendAlias name segment)
        else
          return name
    | _ => return name

/- A module attribute as the name of a struct. -/
def structAttribute
    (mark : Lexeme) : Parse (Except Node Node) := do
  skip 1
  match ← expect .identifier .attributeName with
  | .ok l =>
      return .ok ⟨.unary mark.text ⟨.identifier l.text, l.span⟩,
        mark.span.merge l.span⟩
  | .error e => return .error e

/- The first part of a struct's name, or what stands in for it. -/
def structHead : Parse (Except Node Node) := do
  match ← peek with
  | none => return .error (← errorNode .unexpectedEnd)
  | some l =>
      match l.kind with
      | .alias => do
          skip 1
          return .ok ⟨.alias none [l.text], l.span⟩
      | .identifier => do
          skip 1
          return .ok ⟨.identifier l.text, l.span⟩
      | .operator .atSign => structAttribute l
      | _ => return .error (← wantedNode .structName)

/- The name of a struct, or what stands in for it. -/
def structName : Parse Node := do
  match ← structHead with
  | .ok name => structSegments ((← rest).length + 1) name
  | .error e => return e

/- A map, or a struct with its name. -/
def structOrMap
    (expr : ExpressionParser) : Parse Node := do
  let percent ← currentSpan
  skip 1
  if ← isAt (.opening .curly) then
    let (body, span) ← mapBody expr
    return ⟨.map body, percent.merge span⟩
  else
    let name ← structName
    if ← isAt (.opening .curly) then
      let (body, span) ← mapBody expr
      return ⟨.struct name body, percent.merge span⟩
    else
      wantedNode .structBody

end ElixirReader.Parse
