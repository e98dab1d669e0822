import ElixirReader.Parser.Container

/-
  This file defines the bodies of blocks: statements, or
  clauses with heads and arrows, in a do block or a `fn`.

  Key definitions include:
    * `Parse.clauseOrStatement`
    * `Parse.body`
    * `Parse.doBlock`
    * `Parse.fn`
-/

namespace ElixirReader.Parse

------------------------------------------------------------
-- Heads of clauses
------------------------------------------------------------

/-
  A head without the guard that its last element may carry,
  and that guard.
-/
def splitGuard
    (head : List Node) : List Node × Option Node :=
  match head.getLast? with
  | some ⟨.binary operator left right _, _⟩ =>
      if operator = "when" then (head.dropLast ++ [left], some right)
      else (head, none)
  | _ => (head, none)

/- A clause from its head and the arrow that should follow. -/
def finishHead
    (head : List Node)
    (guard : Option Node) : Parse (Clause Node) := do
  let (head, guard) :=
    match guard with
    | some g => (head, some g)
    | none => splitGuard head
  match ← expect (.operator .stab) .arrow with
  | .ok arrow => return ⟨head, guard, [], arrow.span⟩
  | .error e => return ⟨head ++ [e], guard, [], e.span⟩

/- The guard that may follow a head in parentheses. -/
def headGuard
    (expr : ExpressionParser) : Parse (Option Node) := do
  match ← eat (.operator .whenWord) with
  | none => return none
  | some _ => do
      skipLineEnds
      return some (← expr Precedence.whenGuard .statement)

/- A clause whose head stands in parentheses. -/
def parenthesizedHead
    (expr : ExpressionParser) : Parse (Clause Node) := do
  let (head, _) ← enclosed expr .parenthesis
  let guard ← headGuard expr
  finishHead head guard

/- The further elements of a head, each behind a comma. -/
def headItemsFor
    (expr : ExpressionParser) : Nat → Parse (List Node)
| 0 => do
    cutOff
    return []
| n + 1 => do
    match ← eat .comma with
    | none => return []
    | some _ => do
        skipLineEnds
        if keywordAhead (← rest) then
          return [← keywords expr .container]
        else
          let item ← expr 0 .container
          return item :: (← headItemsFor expr n)

------------------------------------------------------------
-- Clauses and statements
------------------------------------------------------------

/- What a body consists of. -/
inductive Item where
| clause (clause : Clause Node)
| expression (node : Node)

/- An expression, which is a head if a comma or arrow follows. -/
def openClauseOrStatement
    (expr : ExpressionParser) : Parse Item := do
  let first ← expr 0 .statement
  if (← isAt .comma) || (← isAt (.operator .stab)) then
    let more ← headItemsFor expr ((← rest).length + 1)
    return .clause (← finishHead (first :: more) none)
  else
    return .expression first

/- The head of a clause, or an expression. -/
def clauseOrStatement
    (expr : ExpressionParser) : Parse Item := do
  match ← eat (.operator .stab) with
  | some arrow => return .clause ⟨[], none, [], arrow.span⟩
  | none => do
      let ls ← rest
      if (← isAt (.opening .parenthesis)) && parenthesizedHeadAhead ls then
        return .clause (← parenthesizedHead expr)
      else
        openClauseOrStatement expr

/-
  The first clause of a body must not follow expressions. The
  complaint goes into the clause.
-/
def checkFirstClause
    (expressions : List Node)
    (clauses : List (Clause Node))
    (c : Clause Node) : Parse (Clause Node) := do
  if clauses.isEmpty && !expressions.isEmpty then
    let e ← failure (.unexpectedToken "->") c.arrow c.arrow
    return { c with body := c.body ++ [e] }
  else
    return c

/- The body that expressions and clauses make up. -/
def bodyOf
    (expressions : List Node)
    (clauses : List (Clause Node)) : Body Node :=
  if clauses.isEmpty then .expressions expressions else .clauses clauses

/- A body, with a bound on the number of its items. -/
def bodyFor
    (expr : ExpressionParser)
    (stop : Kind → Bool) :
    Nat → List Node → List (Clause Node) → Parse (Body Node)
| 0, expressions, clauses => do
    cutOff
    return bodyOf expressions clauses
| n + 1, expressions, clauses => do
    skipSeparators
    if endsAt stop (← peek) then
      return bodyOf expressions clauses
    else do
      let start ← rest
      match ← clauseOrStatement expr with
      | .clause c => do
          let c ← checkFirstClause expressions clauses c
          recover stop start
          bodyFor expr stop n expressions (clauses ++ [c])
      | .expression node => do
          let node := withTrailing node (← finishStatement stop start)
          if clauses.isEmpty then
            bodyFor expr stop n (expressions ++ [node]) clauses
          else
            bodyFor expr stop n expressions (Clause.pushLast node clauses)

/- Statements or clauses up to a lexeme at which they stop. -/
def body
    (expr : ExpressionParser)
    (stop : Kind → Bool) : Parse (Body Node) := do
  isolated (bodyFor expr stop ((← rest).length + 1) [] [])

------------------------------------------------------------
-- Do blocks
------------------------------------------------------------

/- The last section of a block that is not ended. -/
def unendedSection
    (opened : Span)
    (name : String)
    (b : Body Node) : Parse (List (Section Node) × Span) := do
  let e ← failure (.missingTerminator "end" opened.line) opened opened
  return ([⟨name, b.push e⟩], opened.merge (← previousSpan))

/- Sections, the first of a given name, and the whole span. -/
def sectionsFor
    (expr : ExpressionParser)
    (opened : Span) :
    Nat → String → Parse (List (Section Node) × Span)
| 0, _ => do
    cutOff
    return ([], opened)
| n + 1, name => do
    let b ← body expr Kind.endsBlock
    match ← peek with
    | none => unendedSection opened name b
    | some l =>
        if l.kind = .word .end then do
          skip 1
          return ([⟨name, b⟩], opened.merge l.span)
        else if l.kind.endsBlock then do
          skip 1
          let (more, span) ← sectionsFor expr opened n l.text
          return (⟨name, b⟩ :: more, span)
        else
          unendedSection opened name b

/- A do block with its sections, through its `end`. -/
def doBlock
    (expr : ExpressionParser) : Parse (DoBlock Node) := do
  let opened ← currentSpan
  skip 1
  let (sections, span) ←
    sectionsFor expr opened ((← rest).length + 1) "do"
  return ⟨sections, span⟩

------------------------------------------------------------
-- Anonymous functions
------------------------------------------------------------

/- An anonymous function, whose body has to be clauses. -/
def fn
    (expr : ExpressionParser) : Parse Node := do
  let opened ← currentSpan
  skip 1
  let b ← body expr (· == .word .end)
  let (trailing, span) ← close .blockEnd opened []
  match trailing.foldl (fun b e => b.push e) b with
  | .clauses cs => return ⟨.fn cs, span⟩
  | .expressions _ => failure (.expected .arrowInFn none) opened span

end ElixirReader.Parse
