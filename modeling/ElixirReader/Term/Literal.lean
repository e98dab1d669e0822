import ElixirReader.Decimal.Layout
import ElixirReader.Unicode.Class

/-
  This file writes atoms, keys and binaries the way they stand
  in a source. Names that are identifiers, modules or operators
  need no quotes; all other text is quoted and escaped, and
  text that cannot be seen is written byte by byte.

  Key definitions include:
    * `Literal.isIdentifier`
    * `Literal.moduleName?`
    * `Literal.escapedText`
    * `Literal.binary`
    * `Literal.atom`
    * `Literal.key`
-/

namespace ElixirReader.Literal

open Unicode

------------------------------------------------------------
-- Names
------------------------------------------------------------

/- The marks that may end an identifier. -/
def isMark
    (c : Char) : Bool :=
  c == '?' || c == '!'

/- A name without the marks at its end. -/
def withoutMarks
    (name : List Char) : List Char :=
  (name.reverse.dropWhile isMark).reverse

def startsIdentifier
    (c : Char) : Bool :=
  c == '_' || isLowercase c

def isIdentifierPart
    (c : Char) : Bool :=
  c == '_' || c == '@' || isAlphanumeric c

/-
  A name that starts in lower case or with an underscore, with
  at most one mark, which is its last character.
-/
def isIdentifier
    (name : List Char) : Bool :=
  name.head?.any startsIdentifier
    && decide (name.length ≤ (withoutMarks name).length + 1)
    && (withoutMarks name).all isIdentifierPart

/- A word of ASCII that starts with a capital letter. -/
def isAliasSegment
    (name : List Char) : Bool :=
  name.head?.any Char.isUpper
    && name.all fun c => c == '_' || c.isAlphanum

/- A name that needs no quotes. -/
def isPlain
    (name : List Char) : Bool :=
  isIdentifier name || isAliasSegment name

/- What stands in front of the names of all modules. -/
def moduleMark : List Char :=
  "Elixir.".toList

/- The name of the module that an atom stands for. -/
def moduleName?
    (name : List Char) : Option (List Char) :=
  let rest := name.drop moduleMark.length
  if moduleMark.isPrefixOf name ∧ (rest.splitOn '.').all isAliasSegment then
    some rest
  else
    none

/- The operators that need no quotes behind a colon. -/
def bareOperators : List String :=
  ["%", "%\x7b\x7d", "\x7b\x7d", "<<>>", "...", "..", ".", "->", "@", "&",
   "^", "!", "+", "-", "*", "/", "**", "++", "--", "<>", "=", "==", "!=",
   "===", "!==", "=~", "<", ">", "<=", ">=", "&&", "&&&", "||", "|||", "|>",
   "<<<", ">>>", "<<~", "~>>", "<~", "~>", "<~>", "<|>", "^^^", "~~~",
   "\\\\", "<-", "|", "::"]

------------------------------------------------------------
-- Quoted text
------------------------------------------------------------

/- The escape of a character that has one. -/
def escape? : Char → Option (List Char)
| '"' => some ['\\', '"']
| '\\' => some ['\\', '\\']
| '\n' => some ['\\', 'n']
| '\r' => some ['\\', 'r']
| '\t' => some ['\\', 't']
| '\x0b' => some ['\\', 'v']
| '\x08' => some ['\\', 'b']
| '\x0c' => some ['\\', 'f']
| '\x1b' => some ['\\', 'e']
| '\x07' => some ['\\', 'a']
| '\x7f' => some ['\\', 'd']
| _ => none

/- A hash in front of a curly would start an interpolation. -/
def startsInterpolation
    (c : Char)
    (rest : List Char) : Bool :=
  c == '#' && rest.head? == some '{'

/- A character between quotes, given what comes behind it. -/
def escapedChar
    (c : Char)
    (rest : List Char) : List Char :=
  match escape? c with
  | some e => e
  | none => if startsInterpolation c rest then ['\\', c] else [c]

/- A text the way it stands between double quotes. -/
def escapedText : List Char → List Char
| [] => []
| c :: cs => escapedChar c cs ++ escapedText cs

/- A character that can be seen, or that has an escape. -/
def isVisible
    (c : Char) : Bool :=
  (escape? c).isSome || !isControl c

/- The bytes of a text. -/
def bytes
    (text : List Char) : List Nat :=
  (text.flatMap String.utf8EncodeChar).map UInt8.toNat

/- The bytes of a text in decimal digits. -/
def byteText
    (text : List Char) : List Char :=
  "<<".toList ++ ", ".toList.intercalate ((bytes text).map decimalDigits)
    ++ ">>".toList

/- A text between quotes, or its bytes if it cannot be seen. -/
def binary
    (text : List Char) : List Char :=
  if text.all isVisible then ['"'] ++ escapedText text ++ ['"']
  else byteText text

------------------------------------------------------------
-- Atoms and keys
------------------------------------------------------------

/- The atoms that are words of their own. -/
def wordAtoms : List String :=
  ["nil", "true", "false", "Elixir"]

/- An atom behind its colon, or a word or module without one. -/
def atom
    (name : String) : List Char :=
  if name ∈ wordAtoms then name.toList
  else
    match moduleName? name.toList with
    | some module => module
    | none =>
        if isPlain name.toList ∨ name ∈ bareOperators then
          ':' :: name.toList
        else
          ':' :: binary name.toList

/- The key of a pair, with the colon behind it. -/
def key
    (name : String) : List Char :=
  if isPlain name.toList then name.toList ++ [':']
  else binary name.toList ++ [':']

end ElixirReader.Literal
