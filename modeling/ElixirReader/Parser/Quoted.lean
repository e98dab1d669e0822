import ElixirReader.Parser.Lookahead
import ElixirReader.Tree.Parts

/-
  This file defines the literals that have a promoter or a
  mark: texts, sigils, characters, atoms, and the keys and runs
  of keyword pairs.

  Key definitions include:
    * `Parse.text`
    * `Parse.sigil`
    * `Parse.character`
    * `Parse.atom`
    * `Parse.keywords`
-/

namespace ElixirReader.Parse

------------------------------------------------------------
-- Texts
------------------------------------------------------------

/- What a promoter makes of the characters behind it. -/
def promoterText : Option Lexeme → TextKind × Bool
| none => (.string, false)
| some l =>
    match l.kind with
    | .promoter .charlist .quoted => (.charlist, false)
    | .promoter .charlist .heredoc => (.charlist, true)
    | .promoter .string .heredoc => (.string, true)
    | .promoter .sigil .heredoc => (.string, true)
    | _ => (.string, false)

/- Take the line of a heredoc's promoter; it should be empty. -/
def heredocStart : Parse Unit := do
  let n := runLength (fun k => !isLineEnd k) (← rest)
  if n ≠ 0 then
    poison
  skip (n + 1)

/- A segment that consists of one lexeme. -/
def plainSegment?
    (l : Lexeme) : Option (Segment Node) :=
  match l.kind with
  | .fragment _ => some (.fragment l.text)
  | .escapeSequence => some (.escape l.text)
  | .heredocIndent => some (.indent l.text)
  | _ => none

def isTerminator : Kind → Bool
| .terminator _ _ => true
| _ => false

/- The end of an interpolation that started at a place. -/
def interpolationEnd
    (opened : Span) : Parse Span := do
  match ← eat .interpolationEnd with
  | some l => return opened.merge l.span
  | none => do
      poison
      return opened.merge (← previousSpan)

/- The statements of an interpolation. -/
def interpolation
    (expr : ExpressionParser)
    (opened : Span) : Parse Node := do
  skip 1
  let body ← statements expr (· == .interpolationEnd)
  let span ← interpolationEnd opened
  return ⟨.block body, span⟩

/- What is read of the inside of a literal. -/
structure Inside where
  segments : List (Segment Node)
  span : Span
  closed : Bool

/-
  The segments up to the terminator, which is taken, or up to
  what cannot stand in a literal, which is left.
-/
def segmentsFor
    (expr : ExpressionParser) : Nat → Span → Parse Inside
| 0, span => do
    cutOff
    return ⟨[], span, false⟩
| n + 1, span => do
    match ← peek with
    | none => return ⟨[], span, false⟩
    | some l =>
        match plainSegment? l with
        | some segment => do
            skip 1
            let i ← segmentsFor expr n (span.merge l.span)
            return { i with segments := segment :: i.segments }
        | none =>
            if l.kind = .interpolationStart then do
              let node ← interpolation expr l.span
              let i ← segmentsFor expr n (span.merge node.span)
              return { i with
                segments := .interpolation node :: i.segments }
            else if isTerminator l.kind then do
              skip 1
              return ⟨[], span.merge l.span, true⟩
            else
              return ⟨[], span, false⟩

/-
  The indentation before the terminator of a heredoc, and the
  segments without it.
-/
def splitIndent
    (heredoc : Bool)
    (i : Inside) : Nat × List (Segment Node) :=
  match i.segments.getLast? with
  | some (.indent blanks) =>
      if heredoc && i.closed then (blanks.length, i.segments.dropLast)
      else (0, i.segments)
  | _ => (0, i.segments)

/-
  A literal from its promoter through its terminator. One that
  is not ended has been reported already.
-/
def text
    (expr : ExpressionParser) : Parse (Text Node × Span) := do
  let start ← currentSpan
  let (kind, heredoc) := promoterText (← peek)
  skip 1
  if heredoc then
    heredocStart
  let i ← segmentsFor expr ((← rest).length + 1) start
  if !i.closed then
    poison
  let (indent, segments) := splitIndent heredoc i
  return (⟨kind, heredoc, indent, segments⟩, i.span)

/- A string or charlist. -/
def textNode
    (expr : ExpressionParser) : Parse Node := do
  let (t, span) ← text expr
  return ⟨.text t, span⟩

------------------------------------------------------------
-- Sigils
------------------------------------------------------------

def isSigilName : Kind → Bool
| .readSigilName => true
| .literalSigilName => true
| _ => false

def isSigilPromoter : Kind → Bool
| .promoter .sigil _ => true
| _ => false

/- The modifiers that touch a sigil, and the span with them. -/
def sigilModifiers
    (span : Span) : Parse (String × Span) := do
  match ← peek with
  | some l =>
      if l.kind = .sigilModifiers ∧ l.spaced = false then
        skip 1
        return (l.text, span.merge l.span)
      else
        return ("", span)
  | none => return ("", span)

/- The body and modifiers of a sigil. -/
def sigilBody
    (expr : ExpressionParser)
    (tilde : Span)
    (name : String) : Parse Node := do
  if (← peek).any (isSigilPromoter ·.kind) then
    let (t, body) ← text expr
    let (modifiers, span) ← sigilModifiers (tilde.merge body)
    return ⟨.sigil name t modifiers, span⟩
  else
    wantedNode .sigilDelimiter

/- A sigil: a tilde, a name, and a body. -/
def sigil
    (expr : ExpressionParser) : Parse Node := do
  let tilde ← currentSpan
  skip 1
  match ← peek with
  | some l =>
      if isSigilName l.kind then
        skip 1
        sigilBody expr tilde l.text
      else
        wantedNode .sigilName
  | none => wantedNode .sigilName

------------------------------------------------------------
-- Characters and atoms
------------------------------------------------------------

/- The code point of a character literal. -/
def characterValue
    (text : String)
    (span : Span) : Parse Node := do
  match Escape.characterCode? text.toList with
  | some code => return ⟨.char code, span⟩
  | none => failure (.expected .character (some text)) span span

/- A question mark and the character that touches it. -/
def character : Parse Node := do
  let mark ← currentSpan
  skip 1
  match ← peek with
  | some l =>
      if l.kind = .character ∧ l.spaced = false then
        skip 1
        characterValue l.text (mark.merge l.span)
      else
        wantedNode .characterAfterMark
  | none => wantedNode .characterAfterMark

/- The promoters of literals between two quotes. -/
def isQuotePromoter : Kind → Bool
| .promoter .string .quoted => true
| .promoter .charlist .quoted => true
| _ => false

/- A colon and the name, or quoted name, that touches it. -/
def atom
    (expr : ExpressionParser) : Parse Node := do
  let colon ← currentSpan
  skip 1
  match ← peek with
  | some l =>
      if l.kind = .atomName ∧ l.spaced = false then
        skip 1
        return ⟨.atom l.text, colon.merge l.span⟩
      else if isQuotePromoter l.kind ∧ l.spaced = false then
        let (t, span) ← text expr
        return ⟨.quotedAtom t, colon.merge span⟩
      else
        wantedNode .atomName
  | none => wantedNode .atomName

------------------------------------------------------------
-- Keyword pairs
------------------------------------------------------------

/- A key that is written without quotes. -/
def bareKey
    (l : Lexeme) : Parse Node := do
  skip 1
  match ← eat .colon with
  | some colon => return ⟨.atom l.text, l.span.merge colon.span⟩
  | none => return ⟨.atom l.text, l.span⟩

/- A key that is written in quotes. -/
def quotedKey
    (expr : ExpressionParser) : Parse (Option Node) := do
  let (t, span) ← text expr
  match ← expect .colon .keyColon with
  | .ok colon => return some ⟨.quotedAtom t, span.merge colon.span⟩
  | .error _ => return none

/- The key of a pair, if one stands here. -/
def keywordKey
    (expr : ExpressionParser) : Parse (Option Node) := do
  match ← peek with
  | none => return none
  | some l =>
      if l.kind = .atomName then
        return some (← bareKey l)
      else if keywordAhead (← rest) then
        quotedKey expr
      else
        report (.expected .keywordKey (some l.describe)) l.span
        return none

/- Pairs, with a bound on their number, and the span with them. -/
def pairsFor
    (expr : ExpressionParser)
    (context : Context) :
    Nat → Span → Parse (List (Node × Node) × Span)
| 0, span => do
    cutOff
    return ([], span)
| n + 1, span => do
    match ← keywordKey expr with
    | none => return ([], span)
    | some key => do
        skipLineEnds
        let value ← expr 0 context
        let span := span.merge value.span
        match pairSeparator? (← rest) with
        | none => return ([(key, value)], span)
        | some m => do
            skip m
            let (pairs, span) ← pairsFor expr context n span
            return ((key, value) :: pairs, span)

/- A run of pairs of a key and a value, separated by commas. -/
def keywords
    (expr : ExpressionParser)
    (context : Context) : Parse Node := do
  let start ← currentSpan
  let (pairs, span) ←
    pairsFor expr context ((← rest).length + 1) start
  return ⟨.keywords pairs, span⟩

end ElixirReader.Parse
