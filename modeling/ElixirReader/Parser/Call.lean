import ElixirReader.Parser.Block

/-
  This file defines calls: the arguments and the do block
  behind a name, and what may follow a node to make a larger
  one, a dot and a name or a key in brackets.

  Key definitions include:
    * `Suffix`
    * `Parse.callSuffix`
    * `Parse.identifier`
    * `Parse.dotted`
    * `Parse.access`
-/

namespace ElixirReader

------------------------------------------------------------
-- Suffixes of calls
------------------------------------------------------------

/- What follows the name of a call, and its last span. -/
structure Suffix where
  arguments : List Node
  parentheses : Bool
  doBlock : Option (DoBlock Node)
  last : Span

namespace Suffix

/- A name without arguments. -/
def bare
    (last : Span) : Suffix :=
  ⟨[], false, none, last⟩

/- The call of a target that starts at a place. -/
def call
    (target : Target Node)
    (start : Span)
    (s : Suffix) : Node :=
  ⟨.call target s.arguments s.parentheses s.doBlock,
    start.merge s.last⟩

end Suffix

namespace Parse

/- Arguments without parentheses, at most a given number. -/
def argumentsFor
    (expr : ExpressionParser)
    (context : Context) : Nat → Parse (List Node)
| 0 => do
    cutOff
    return []
| n + 1 => do
    if keywordAhead (← rest) then
      return [← keywords expr .argument]
    else
      let argument ← expr 0 .argument
      if context.manyArguments && (← isAt .comma) then
        skip 1
        skipLineEnds
        return argument :: (← argumentsFor expr context n)
      else
        return [argument]

/- Arguments in parentheses. -/
def parenthesizedSuffix
    (expr : ExpressionParser) : Parse Suffix := do
  let (arguments, span) ← enclosed expr .parenthesis
  return ⟨arguments, true, none, span⟩

/- Arguments without parentheses. -/
def openSuffix
    (expr : ExpressionParser)
    (context : Context) : Parse Suffix := do
  let arguments ← argumentsFor expr context ((← rest).length + 1)
  let previous ← previousSpan
  return ⟨arguments, false, none,
    (arguments.getLast?.map Node.span).getD previous⟩

/- The do block that may follow arguments. -/
def attachDo
    (expr : ExpressionParser)
    (context : Context)
    (s : Suffix) : Parse Suffix := do
  if context.doBlocks && (← isAt (.word .do)) then
    let b ← doBlock expr
    return { s with doBlock := some b, last := b.span }
  else
    return s

/-
  Arguments in parentheses that touch the name, arguments
  without parentheses, or nothing before a do block.
-/
def callArguments
    (expr : ExpressionParser)
    (context : Context) : Parse (Option Suffix) := do
  let ls ← rest
  if ls.head?.any (fun l => l.kind == .opening .parenthesis && !l.spaced) then
    return some (← parenthesizedSuffix expr)
  else if argumentAhead ls then
    return some (← openSuffix expr context)
  else if context.doBlocks && ls.head?.any (·.kind == .word .do) then
    return some (Suffix.bare (← currentSpan))
  else
    return none

/- What makes a call of a name, if it is one. -/
def callSuffix
    (expr : ExpressionParser)
    (context : Context) : Parse (Option Suffix) := do
  match ← callArguments expr context with
  | none => return none
  | some s => return some (← attachDo expr context s)

/- A call of a name, or the name alone. -/
def identifier
    (expr : ExpressionParser)
    (context : Context)
    (name : Lexeme) : Parse Node := do
  match ← callSuffix expr context with
  | some s => return s.call (.bare name.text) name.span
  | none => return ⟨.identifier name.text, name.span⟩

------------------------------------------------------------
-- Dots
------------------------------------------------------------

/- A call of a name behind a dot, with or without arguments. -/
def remoteCall
    (expr : ExpressionParser)
    (context : Context)
    (receiver : Node)
    (name : String)
    (dot nameSpan : Span) : Parse Node := do
  let suffix ← callSuffix expr context
  return (suffix.getD (Suffix.bare nameSpan)).call
    (.remote receiver name dot nameSpan) receiver.span

/- A quoted name behind a dot, which has no interpolations. -/
def quotedRemote
    (expr : ExpressionParser)
    (context : Context)
    (receiver : Node)
    (dot : Span) : Parse Node := do
  let (t, nameSpan) ← text expr
  match t.literal? with
  | some name => remoteCall expr context receiver name dot nameSpan
  | none =>
      failure (.expected .plainFunctionName none) nameSpan
        (receiver.span.merge nameSpan)

/- Arguments in brackets right behind a dot. -/
def enclosedCall
    (expr : ExpressionParser)
    (bracket : Bracket)
    (target : Target Node)
    (start : Span) : Parse Node := do
  let (arguments, last) ← enclosed expr bracket
  return Suffix.call target start ⟨arguments, true, none, last⟩

/- What stands behind the dot that follows a receiver. -/
def afterDot
    (expr : ExpressionParser)
    (context : Context)
    (receiver : Node)
    (dot : Span)
    (l : Lexeme) : Parse Node := do
  match l.kind with
  | .identifier => do
      skip 1
      remoteCall expr context receiver l.text dot l.span
  | .alias => do
      skip 1
      return extendAlias receiver l
  | .opening .parenthesis =>
      enclosedCall expr .parenthesis (.anonymous receiver dot) receiver.span
  | .opening .curly =>
      enclosedCall expr .curly (.remote receiver "\x7b\x7d" dot l.span)
        receiver.span
  | k =>
      if isQuotePromoter k then quotedRemote expr context receiver dot
      else wantedNode .nameAfterDot

/- A receiver, a dot, and what is behind it. -/
def dotted
    (expr : ExpressionParser)
    (context : Context)
    (receiver : Node) : Parse Node := do
  let dot ← currentSpan
  skip 1
  match ← peek with
  | some l => afterDot expr context receiver dot l
  | none => errorNode .unexpectedEnd

------------------------------------------------------------
-- Access
------------------------------------------------------------

/- The key of an access. -/
def accessKey
    (expr : ExpressionParser) : Parse Node := do
  skipLineEnds
  if keywordAhead (← rest) then
    keywords expr .container
  else
    expr 0 .container

/- The closing bracket, without which an error takes the key's place. -/
def closeAccess
    (opened : Span)
    (key : Node) : Parse (Node × Span) := do
  match ← expectClosing (.bracket .square) opened with
  | .ok l => return (key, opened.merge l.span)
  | .error e => return (e, opened.merge (← previousSpan))

/- A subject and a key in brackets. -/
def access
    (expr : ExpressionParser)
    (subject : Node) : Parse Node := do
  let opened ← currentSpan
  skip 1
  let key ← accessKey expr
  let (key, last) ← closeAccess opened key
  return ⟨.access subject key, subject.span.merge last⟩

end Parse

end ElixirReader
