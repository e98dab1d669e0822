import ElixirReader.Lexer.Mode
import ElixirReader.Token.Kind
import ElixirReader.Unicode.Class

/-
  This file defines how far names, blanks and escapes reach,
  and which names are reserved. Each measure looks at the
  characters behind the first one, and says how many of them
  belong to the same token.

  Key definitions include:
    * `countWhile`
    * `isBlank`
    * `isLineBreak`
    * `isIdentifierStart`
    * `isNameStart`
    * `identifierTail`
    * `aliasTail`
    * `escapeTail`
    * `reservedWord?`
-/

namespace ElixirReader

open Unicode

------------------------------------------------------------
-- Runs of characters
------------------------------------------------------------

/- The length of the longest run at the front. -/
def countWhile
    (p : Char → Bool)
    (cs : List Char) : Nat :=
  (cs.takeWhile p).length

theorem countWhile_le
    (p : Char → Bool)
    (cs : List Char) :
    countWhile p cs ≤ cs.length := by
  unfold countWhile
  exact (List.takeWhile_prefix p).length_le

/- The characters that separate tokens of one line. -/
def isBlank
    (c : Char) : Bool :=
  c == ' ' || c == '\t' || c == '\x0c'

/- The characters that end a line. -/
def isLineBreak
    (c : Char) : Bool :=
  c == '\n' || c == '\r'

/- The characters that may follow the colon of a key. -/
def isSpace
    (c : Char) : Bool :=
  isBlank c || isLineBreak c

/- The characters that indent a heredoc line. -/
def isIndent
    (c : Char) : Bool :=
  c == ' ' || c == '\t'

/- A line feed belongs to the carriage return before it. -/
def lineBreakTail
    (c : Char)
    (cs : List Char) : Nat :=
  if c = '\r' ∧ cs.head? = some '\n' then 1 else 0

------------------------------------------------------------
-- Names
------------------------------------------------------------

def isIdentifierStart
    (c : Char) : Bool :=
  c == '_' || (isAlphabetic c && !c.isUpper)

def isIdentifierPart
    (c : Char) : Bool :=
  c == '_' || isAlphanumeric c

/- The characters that start an identifier or an alias. -/
def isNameStart
    (c : Char) : Bool :=
  isIdentifierStart c || c.isUpper

def isAliasPart
    (c : Char) : Bool :=
  c.isAlphanum || c == '_'

/- The mark that may end an identifier. -/
def isIdentifierMark
    (c : Char) : Bool :=
  c == '?' || c == '!'

/- One character more if the one behind the first `n` is a mark. -/
def withMark
    (cs : List Char)
    (n : Nat) : Nat :=
  if (cs.drop n).head?.any isIdentifierMark then n + 1 else n

/- The rest of an identifier, with its mark. -/
def identifierTail
    (cs : List Char) : Nat :=
  withMark cs (countWhile isIdentifierPart cs)

/- The rest of the name of an atom or key, which may hold `@`. -/
def atomNameTail
    (cs : List Char) : Nat :=
  withMark cs (countWhile (fun c => isIdentifierPart c || c == '@') cs)

/- The rest of an alias. -/
def aliasTail
    (cs : List Char) : Nat :=
  countWhile isAliasPart cs

/- Whether a colon and a space or line break come next. -/
def startsWithKeyMark : List Char → Bool
| ':' :: c :: _ => isSpace c
| _ => false

/- The rest of a keyword key, where one starts. -/
def keyTail?
    (cs : List Char) : Option Nat :=
  if startsWithKeyMark (cs.drop (atomNameTail cs)) then
    some (atomNameTail cs)
  else
    none

------------------------------------------------------------
-- Escapes
------------------------------------------------------------

/- Hexadecimal digits, at most `most` of them, or in curlies. -/
def hexTail
    (most : Nat) : List Char → Nat
| '{' :: ds =>
    let n := countWhile isHexDigit ds
    if (ds.drop n).head? = some '}' then n + 2 else n + 1
| ds => min most (countWhile isHexDigit ds)

/- The rest of an escape behind its letter. -/
def escapeTail
    (letter : Char)
    (cs : List Char) : Nat :=
  if letter = 'x' then hexTail 2 cs
  else if letter = 'u' then hexTail 4 cs
  else lineBreakTail letter cs

/- The rest of an escape behind its backslash. -/
def backslashTail : List Char → Nat
| [] => 0
| letter :: cs => 1 + escapeTail letter cs

------------------------------------------------------------
-- Reserved words
------------------------------------------------------------

/- The kind of a reserved name, and the mode behind it. -/
def reservedWord? : String → Option (Kind × Mode)
| "after" => some (.word .after, .afterOperator)
| "catch" => some (.word .catch, .afterOperator)
| "do" => some (.word .do, .afterOperator)
| "else" => some (.word .else, .afterOperator)
| "fn" => some (.word .fn, .afterOperator)
| "rescue" => some (.word .rescue, .afterOperator)
| "end" => some (.word .end, .afterMark)
| "true" => some (.word .true, .afterLiteral)
| "false" => some (.word .false, .afterLiteral)
| "nil" => some (.word .nil, .afterLiteral)
| "and" => some (.operator .andWord, .afterOperator)
| "or" => some (.operator .orWord, .afterOperator)
| "not" => some (.operator .notWord, .afterOperator)
| "in" => some (.operator .inWord, .afterOperator)
| "when" => some (.operator .whenWord, .afterOperator)
| _ => none

end ElixirReader
