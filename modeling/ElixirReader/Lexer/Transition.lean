import ElixirReader.Lexer.Fault
import ElixirReader.Lexer.Group
import ElixirReader.Lexer.Names
import ElixirReader.Lexer.Operators
import ElixirReader.Text.Escape

/-
  This file defines the next token: from the mode, the
  innermost open construct, and the characters that are left,
  its kind, its length, the mode behind it, and what it does
  to the open constructs. Nothing here hangs on where in the
  source the token stands.

  Every token takes its first character and `more` of those
  behind it, so no token is empty.

  Key definitions include:
    * `Transition`
    * `Transition.expression`
    * `Transition.digits`
    * `Transition.group`
    * `Transition.heredocLineStart`
    * `Transition.of`
-/

namespace ElixirReader

open Unicode

------------------------------------------------------------
-- Transitions
------------------------------------------------------------

/-
  A token that is about to be taken. `sigil` says, behind the
  name of a sigil, whether its body is read.
-/
structure Transition where
  kind : Kind
  more : Nat
  mode : Mode
  change : Change := .keep
  sigil : Option Bool := none
  fault : Option LexFault := none
deriving DecidableEq, Repr

namespace Transition

/- A token of a kind and length that leads to a mode. -/
def plain
    (kind : Kind)
    (more : Nat)
    (mode : Mode) : Transition :=
  { kind, more, mode }

/- A character that has no place here. -/
def bad : Transition :=
  plain .badCharacter 0 .initial

------------------------------------------------------------
-- White space and comments
------------------------------------------------------------

def blanks
    (mode : Mode)
    (cs : List Char) : Transition :=
  plain .whiteSpace (countWhile isBlank cs) mode.afterBlank

/- A newline ends the expression unless the mode continues it. -/
def lineBreak
    (mode : Mode)
    (c : Char)
    (cs : List Char) : Transition :=
  if mode.newlineIsBlank then
    plain .whiteSpace (lineBreakTail c cs) mode
  else
    plain .endOfLine (lineBreakTail c cs) .initial

def comment
    (mode : Mode)
    (cs : List Char) : Transition :=
  plain .comment (countWhile (fun c => !isLineBreak c) cs) mode

/- A backslash escapes a newline, or starts the operator `\\`. -/
def backslash
    (mode : Mode) : List Char → Transition
| [] => bad
| c :: cs =>
    if isLineBreak c then
      plain .whiteSpace (1 + lineBreakTail c cs) mode.afterBlank
    else if c = '\\' then
      plain (.operator .inMatch) 1 .afterOperator
    else
      bad

------------------------------------------------------------
-- Operators
------------------------------------------------------------

/- A table entry that starts with the current character. -/
def ofEntry
    (e : OperatorEntry) : Transition :=
  plain e.kind (e.text.length - 1) e.mode

/-
  Whether a sign joins two operands. Behind an identifier and
  blanks it does so only if blanks, or nothing, follow.
-/
def signIsBinary
    (mode : Mode)
    (cs : List Char) : Bool :=
  if mode = .afterSpacedIdentifier then
    cs.head?.all isSpace
  else
    mode.followsOperand

def plus
    (mode : Mode)
    (cs : List Char) : Transition :=
  if signIsBinary mode cs then
    plain (.operator .addition) 0 .afterOpening
  else
    plain (.operator .identity) 0 .initial

def minus
    (mode : Mode)
    (cs : List Char) : Transition :=
  if signIsBinary mode cs then
    plain (.operator .subtraction) 0 .afterOpening
  else
    plain (.operator .negation) 0 .initial

/- The longest operator, a sign, or no token at all. -/
def operator
    (mode : Mode)
    (c : Char)
    (cs : List Char) : Transition :=
  match OperatorEntry.find? operatorTable (c :: cs) with
  | some e => ofEntry e
  | none =>
      if c = '+' then plus mode cs
      else if c = '-' then minus mode cs
      else bad

/- An operator that starts with a tilde, or the start of a sigil. -/
def tilde
    (cs : List Char) : Transition :=
  match OperatorEntry.find? tildeTable ('~' :: cs) with
  | some e => ofEntry e
  | none => plain .tilde 0 .sigil

def colon : List Char → Transition
| ':' :: _ => plain .doubleColon 1 .afterOpening
| cs =>
    if cs.head?.any isSpace then
      plain .colon 0 .initial
    else
      plain .colon 0 .atomStart

def dot : List Char → Transition
| '.' :: '.' :: _ => plain .identifier 2 .afterIdentifier
| '.' :: _ => plain (.operator .range) 1 .afterOperator
| _ => plain .dot 0 .afterDot

------------------------------------------------------------
-- Brackets
------------------------------------------------------------

def openCurly : Transition :=
  { plain (.opening .curly) 0 .afterOpening with change := .openCurly }

/- A curly ends the interpolation whose own curlies are closed. -/
def closeCurly : Option Frame → Transition
| some (.interpolation 0 resume) =>
    { plain .interpolationEnd 0 resume with change := .close }
| _ =>
    { plain (.closing .curly) 0 .afterOperand with change := .closeCurly }

------------------------------------------------------------
-- Names and numbers
------------------------------------------------------------

def aliasName
    (cs : List Char) : Transition :=
  plain .alias (aliasTail cs) .afterAlias

/- A name that is no alias and no key. -/
def word
    (c : Char)
    (cs : List Char) : Transition :=
  let more := identifierTail cs
  match reservedWord? (String.ofList (c :: cs.take more)) with
  | some (kind, mode) => plain kind more mode
  | none => plain .identifier more .afterIdentifier

/- A keyword key, an alias, a reserved word or an identifier. -/
def name
    (c : Char)
    (cs : List Char) : Transition :=
  match keyTail? cs with
  | some more => plain .atomName more .afterMark
  | none => if c.isUpper then aliasName cs else word c cs

/- A number starts with a zero and a base letter, or with digits. -/
def number
    (c : Char)
    (cs : List Char) : Transition :=
  if c = '0' ∧ cs.head?.any Char.isAlpha then
    plain .baseZero 0 .baseLetter
  else
    plain (.digits .decimal) (countWhile Char.isDigit cs) .decimalDigits

------------------------------------------------------------
-- Promoters
------------------------------------------------------------

/- Whether the same quote follows twice. -/
def isTriple
    (quote : Char) : List Char → Bool
| c :: d :: _ => c == quote && d == quote
| _ => false

/- The promoter of a group, one or three characters long. -/
def promoter
    (g : Group) : Transition :=
  { plain g.promoterKind (if g.layout = .heredoc then 2 else 0)
      g.startMode with change := .openGroup g }

/- The family that a quote opens. -/
def quoteFamily
    (quote : Char) : Family :=
  if quote = '"' then .string else .charlist

def quoteLayout
    (quote : Char)
    (cs : List Char) : Layout :=
  if isTriple quote cs then .heredoc else .quoted

def quote
    (c : Char)
    (cs : List Char) : Transition :=
  promoter ⟨quoteFamily c, quoteLayout c cs, c, true⟩

------------------------------------------------------------
-- Expressions
------------------------------------------------------------

/- A character that is no blank, digit or letter. -/
def symbol
    (mode : Mode)
    (top : Option Frame)
    (c : Char)
    (cs : List Char) : Transition :=
  match c with
  | '\\' => backslash mode cs
  | '#' => comment .initial cs
  | '"' => quote '"' cs
  | '\'' => quote '\'' cs
  | '?' => plain .characterMark 0 .character
  | '~' => tilde cs
  | ':' => colon cs
  | '.' => dot cs
  | '{' => openCurly
  | '}' => closeCurly top
  | '(' => plain (.opening .parenthesis) 0 .afterOpening
  | '[' => plain (.opening .square) 0 .afterOpening
  | ')' => plain (.closing .parenthesis) 0 .afterOperand
  | ']' => plain (.closing .square) 0 .afterOperand
  | ',' => plain .comma 0 .initial
  | ';' => plain .semicolon 0 .afterOpening
  | c => operator mode c cs

/- A token outside quoted literals. -/
def expression
    (mode : Mode)
    (top : Option Frame)
    (c : Char)
    (cs : List Char) : Transition :=
  if isBlank c then blanks mode cs
  else if isLineBreak c then lineBreak mode c cs
  else if c.isDigit then number c cs
  else if isNameStart c then name c cs
  else symbol mode top c cs

/- The name or quote of an atom. -/
def atomStart
    (top : Option Frame)
    (c : Char)
    (cs : List Char) : Transition :=
  if c = '"' ∨ c = '\'' then quote c cs
  else if isNameStart c then
    plain .atomName (atomNameTail cs) .afterOperand
  else
    match firstPrefix? atomOperators (c :: cs) with
    | some op => plain .atomName (op.length - 1) .afterOperand
    | none => expression .initial top c cs

/- A name behind a dot, where no word is reserved. -/
def afterDot
    (top : Option Frame)
    (c : Char)
    (cs : List Char) : Transition :=
  if isBlank c then blanks .afterDot cs
  else if isLineBreak c then lineBreak .afterDot c cs
  else if c = '#' then comment .afterDot cs
  else if c.isUpper then aliasName cs
  else if isIdentifierStart c then
    plain .identifier (identifierTail cs) .afterIdentifier
  else
    match firstPrefix? callOperators (c :: cs) with
    | some op => plain .identifier (op.length - 1) .afterIdentifier
    | none => expression .initial top c cs

/- The character behind `?`, or a whole escape. -/
def character
    (c : Char)
    (cs : List Char) : Transition :=
  plain .character (if c = '\\' then backslashTail cs else 0) .afterOperand

------------------------------------------------------------
-- Digits
------------------------------------------------------------

/- The letter that names a base. -/
def baseLetter
    (top : Option Frame)
    (c : Char)
    (cs : List Char) : Transition :=
  if c = 'b' ∨ c = 'B' then plain .binaryBase 0 .binaryDigits
  else if c = 'o' ∨ c = 'O' then plain .octalBase 0 .octalDigits
  else if c = 'x' ∨ c = 'X' then
    plain .hexadecimalBase 0 .hexadecimalDigits
  else if c.isAlpha then plain .unknownBase 0 .unknownDigits
  else expression .initial top c cs

/- The base in which a mode reads digits. -/
def modeRadix? : Mode → Option Radix
| .binaryDigits => some .binary
| .octalDigits => some .octal
| .hexadecimalDigits => some .hexadecimal
| .unknownDigits => none
| _ => some .decimal

/- The digits of a base. -/
def isDigitOf : Radix → Char → Bool
| .decimal, c => c.isDigit
| .binary, c => c == '0' || c == '1'
| .octal, c => decide ('0' ≤ c ∧ c ≤ '7')
| .hexadecimal, c => isHexDigit c

/- The digits that a mode reads; none behind an unknown base. -/
def isModeDigit
    (mode : Mode)
    (c : Char) : Bool :=
  (modeRadix? mode).any (isDigitOf · c)

/- The length of an exponent mark that digits follow. -/
def exponentTail?
    (cs : List Char) : Option Nat :=
  let n := if cs.head?.any (fun c => c == '+' || c == '-') then 1 else 0
  if (cs.drop n).head?.any Char.isDigit then some n else none

/- A run of digits, right or wrong ones. -/
def digitRun
    (mode : Mode)
    (top : Option Frame)
    (c : Char)
    (cs : List Char) : Transition :=
  if isModeDigit mode c then
    plain (((modeRadix? mode).map Kind.digits).getD .badBaseDigits)
      (countWhile (isModeDigit mode) cs) mode
  else if c.isAlphanum then
    plain (((modeRadix? mode).map Kind.badDigits).getD .badBaseDigits)
      (countWhile (fun d => d.isAlphanum && !isModeDigit mode d) cs) mode
  else
    expression mode top c cs

/- The mark of an exponent, or a run of digits. -/
def exponentOrRun
    (mode : Mode)
    (top : Option Frame)
    (c : Char)
    (cs : List Char) : Transition :=
  if mode = .fractionDigits ∧ (c = 'e' ∨ c = 'E') then
    match exponentTail? cs with
    | some more => plain .exponentMark more .exponentDigits
    | none => digitRun mode top c cs
  else
    digitRun mode top c cs

/-
  The rest of a number: separators, marks and digits. All else
  ends it. Behind an unknown base `_` starts a name.
-/
def digits
    (mode : Mode)
    (top : Option Frame)
    (c : Char)
    (cs : List Char) : Transition :=
  if c = '_' then
    if mode = .unknownDigits then name c cs else plain .separator 0 mode
  else if mode = .decimalDigits ∧ c = '.' ∧ cs.head?.any Char.isDigit then
    plain .decimalMark 0 .fractionDigits
  else
    exponentOrRun mode top c cs

------------------------------------------------------------
-- Sigils
------------------------------------------------------------

/- The character that ends a sigil opened by another. -/
def sigilTerminator? : Char → Option Char
| '(' => some ')'
| '[' => some ']'
| '{' => some '}'
| '<' => some '>'
| '/' => some '/'
| '|' => some '|'
| '"' => some '"'
| '\'' => some '\''
| _ => none

/- The name of a sigil: a small letter, or capitals and digits. -/
def sigilName
    (top : Option Frame)
    (c : Char)
    (cs : List Char) : Transition :=
  if c.isLower then
    { plain .readSigilName 0 .sigil with sigil := some true }
  else if c.isUpper then
    { plain .literalSigilName
        (countWhile (fun d => d.isUpper || d.isDigit) cs) .sigil with
      sigil := some false }
  else
    expression .initial top c cs

/- The delimiter that opens the body of a sigil. -/
def sigilPromoter
    (reads : Bool)
    (top : Option Frame)
    (c : Char)
    (cs : List Char) : Transition :=
  if (c = '"' ∨ c = '\'') ∧ isTriple c cs then
    promoter ⟨.sigil, .heredoc, c, reads⟩
  else
    match sigilTerminator? c with
    | some t => promoter ⟨.sigil, .quoted, t, reads⟩
    | none => expression .initial top c cs

/- The name of a sigil, or the promoter behind the name. -/
def sigilHead
    (pending : Option Bool)
    (top : Option Frame)
    (c : Char)
    (cs : List Char) : Transition :=
  match pending with
  | none => sigilName top c cs
  | some reads => sigilPromoter reads top c cs

/- The letters and digits behind a sigil. -/
def sigilModifiers
    (top : Option Frame)
    (c : Char)
    (cs : List Char) : Transition :=
  if c.isAlphanum then
    plain .sigilModifiers (countWhile Char.isAlphanum cs) .afterOperand
  else
    expression .afterOperand top c cs

------------------------------------------------------------
-- Bodies of groups
------------------------------------------------------------

/- The end of a group. -/
def terminator
    (g : Group) : Transition :=
  { plain g.terminatorKind (if g.layout = .heredoc then 2 else 0)
      g.endMode with change := .close }

/- The start of an interpolation in a group. -/
def interpolation
    (g : Group) : Transition :=
  { plain .interpolationStart 1 .initial with
    change := .openInterpolation g.bodyMode }

/-
  The length of the plain text in front: up to the terminator
  of a quoted literal, an escape or interpolation that is
  read, and the end of a heredoc line, which it includes.
  Where escapes are not read, a backslash still protects the
  terminator.
-/
def fragmentLength
    (g : Group) : List Char → Nat
| [] => 0
| c :: cs =>
    if g.layout = .quoted ∧ c = g.terminator then 0
    else if c = '\\' then
      if g.reads then 0
      else
        match cs with
        | [] => 1
        | d :: ds =>
            if d = g.terminator then 2 + fragmentLength g ds
            else 1 + fragmentLength g (d :: ds)
    else if g.reads ∧ c = '#' ∧ cs.head? = some '{' then 0
    else if g.layout = .heredoc ∧ c = '\n' then 1
    else 1 + fragmentLength g cs

/- The mode behind plain text, which may have ended a line. -/
def fragmentMode
    (g : Group)
    (text : List Char) : Mode :=
  if g.layout = .heredoc ∧ text.getLast? = some '\n' then
    .heredocLineStart
  else
    g.bodyMode

def fragment
    (g : Group)
    (c : Char)
    (cs : List Char) : Transition :=
  let n := fragmentLength g (c :: cs)
  plain g.fragmentKind (n - 1) (fragmentMode g ((c :: cs).take n))

/- The mode behind an escape, which may hide a line break. -/
def escapeMode
    (g : Group)
    (cs : List Char) : Mode :=
  if g.layout = .heredoc ∧ cs.head?.any isLineBreak then
    .heredocLineStart
  else
    g.bodyMode

/-
  What is wrong with an escape, from what follows the
  backslash. Sigils take their escapes as they are.
-/
def escapeFault
    (g : Group)
    (tail : List Char) : Option LexFault :=
  if g.family ≠ .sigil ∧ (Escape.decode? ('\\' :: tail)).isNone
      ∧ tail.head?.any (fun c => c == 'x' || c == 'u') then
    some (.invalidEscape (String.ofList ('\\' :: tail)))
  else
    none

def escape
    (g : Group)
    (cs : List Char) : Transition :=
  let more := backslashTail cs
  { plain .escapeSequence more (escapeMode g cs) with
    fault := escapeFault g (cs.take more) }

/- The text of a group where no terminator is. -/
def body
    (g : Group)
    (c : Char)
    (cs : List Char) : Transition :=
  if g.reads ∧ c = '\\' then escape g cs
  else if g.reads ∧ c = '#' ∧ cs.head? = some '{' then interpolation g
  else fragment g c cs

/- A token inside a quoted literal that is no heredoc. -/
def group
    (g : Group)
    (c : Char)
    (cs : List Char) : Transition :=
  if c = g.terminator then terminator g else body g c cs

/- The line of a heredoc's promoter, where only blanks may stand. -/
def heredocStart
    (c : Char)
    (cs : List Char) : Transition :=
  if isIndent c then
    plain .whiteSpace (countWhile isIndent cs) .heredocStart
  else if isLineBreak c then
    plain .endOfLine (lineBreakTail c cs) .heredocLineStart
  else
    { plain .badCharacter (countWhile (fun d => !isLineBreak d) cs)
        .heredocStart with fault := some .invalidHeredocStart }

/- The start of a heredoc line, where the terminator may stand. -/
def heredocLineStart
    (g : Group)
    (c : Char)
    (cs : List Char) : Transition :=
  if isIndent c then
    plain .heredocIndent (countWhile isIndent cs) .heredocLineStart
  else if c = g.terminator ∧ isTriple c cs then terminator g
  else body g c cs

------------------------------------------------------------
-- All modes
------------------------------------------------------------

/-
  The group that a group mode is in. Where no group is
  innermost, the mode is taken to be in a string.
-/
def currentGroup
    (layout : Layout)
    (top : Option Frame) : Group :=
  (top.bind Frame.group?).getD (Group.string layout)

/- The token at the front of the characters that are left. -/
def of
    (mode : Mode)
    (pending : Option Bool)
    (top : Option Frame)
    (c : Char)
    (cs : List Char) : Transition :=
  match mode with
  | .group => group (currentGroup .quoted top) c cs
  | .heredocStart => heredocStart c cs
  | .heredocLineStart => heredocLineStart (currentGroup .heredoc top) c cs
  | .heredocLineBody => body (currentGroup .heredoc top) c cs
  | .sigil => sigilHead pending top c cs
  | .sigilModifiers => sigilModifiers top c cs
  | .character => character c cs
  | .atomStart => atomStart top c cs
  | .afterDot => afterDot top c cs
  | .baseLetter => baseLetter top c cs
  | .binaryDigits => digits .binaryDigits top c cs
  | .octalDigits => digits .octalDigits top c cs
  | .hexadecimalDigits => digits .hexadecimalDigits top c cs
  | .unknownDigits => digits .unknownDigits top c cs
  | .decimalDigits => digits .decimalDigits top c cs
  | .fractionDigits => digits .fractionDigits top c cs
  | .exponentDigits => digits .exponentDigits top c cs
  | m => expression m top c cs

end Transition

end ElixirReader
