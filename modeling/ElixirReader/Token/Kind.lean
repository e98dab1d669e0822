/-
  This file defines the kinds of tokens. Number literals are
  split into marks and runs of digits, and quoted literals
  into a promoter, fragments, escapes, interpolation marks and
  a terminator, so that the texts of all tokens make up the
  source.

  Key definitions include:
    * `Bracket`
    * `Word`
    * `Operator`
    * `Radix`
    * `Family`
    * `Layout`
    * `Kind`
    * `Kind.name`
    * `Kind.all`
    * `Kind.ofName?`
    * `Kind.isTrivia`
    * `Kind.isFaulty`
    * `Kind.isNumberPart`
-/

namespace ElixirReader

------------------------------------------------------------
-- Parts of a kind
------------------------------------------------------------

/- The delimiters that come in pairs. -/
inductive Bracket where
| parenthesis
| square
| curly
| bits
deriving DecidableEq, Repr, Inhabited

/- The reserved words that are not operators. -/
inductive Word where
| after
| catch
| do
| else
| end
| fn
| rescue
| true
| false
| nil
deriving DecidableEq, Repr, Inhabited

/-
  The classes of operators. Operators of one class share
  their place in the grammar.
-/
inductive Operator where
/- Binary `+`. -/
| addition
/- Binary `-`. -/
| subtraction
/- Unary `-`. -/
| negation
/- Unary `+`. -/
| identity
/- `!`, `^` and `~~~`. -/
| unary
/- `not`. -/
| notWord
/- `&&` and `&&&`. -/
| andSymbol
/- `and`. -/
| andWord
/- `||` and `|||`. -/
| orSymbol
/- `or`. -/
| orWord
/- `|>`, `<<<`, `>>>`, `<<~`, `~>>`, `<~`, `~>`, `<~>`, `<|>`. -/
| arrow
/- `=>`. -/
| association
/- `@`. -/
| atSign
/- `&`. -/
| capture
/- `==`, `!=`, `=~`, `===`, `!==`. -/
| comparison
/- `/`. -/
| division
/- `in`. -/
| inWord
/- `<-` and `\\`. -/
| inMatch
/- `=`. -/
| matching
/- `*`. -/
| multiplication
/- `|`. -/
| pipe
/- `**`. -/
| power
/- `..`. -/
| range
/- `<`, `>`, `<=`, `>=`. -/
| relational
/- `->`. -/
| stab
/- `%`. -/
| struct
/- `++`, `--`, `<>`. -/
| concatenation
/- `when`. -/
| whenWord
/- `^^^`. -/
| xor
deriving DecidableEq, Repr, Inhabited

/- The bases in which a number may be written. -/
inductive Radix where
| decimal
| binary
| octal
| hexadecimal
deriving DecidableEq, Repr, Inhabited

/- The families of quoted literals. -/
inductive Family where
| string
| charlist
| sigil
deriving DecidableEq, Repr, Inhabited

/-
  A quoted literal stands between two delimiters, or it is a
  heredoc: whole lines between two lines of delimiters.
-/
inductive Layout where
| quoted
| heredoc
deriving DecidableEq, Repr, Inhabited

------------------------------------------------------------
-- Kinds
------------------------------------------------------------

inductive Kind where
/- Blanks, escaped newlines, and newlines that end nothing. -/
| whiteSpace
/- A newline that may end an expression. -/
| endOfLine
/- `#` and the rest of the line. -/
| comment
/- A character that has no place where it stands. -/
| badCharacter
| opening (bracket : Bracket)
| closing (bracket : Bracket)
| comma
| semicolon
| dot
/- `:` before an atom or behind a keyword key. -/
| colon
/- `::`. -/
| doubleColon
| identifier
| alias
/- The name behind the `:` of an atom or before that of a key. -/
| atomName
| word (word : Word)
| operator (operator : Operator)
| digits (radix : Radix)
/- Letters and digits that the base of the number lacks. -/
| badDigits (radix : Radix)
/- All that follows a base letter that names no base. -/
| badBaseDigits
/- `.` between the digits of a float. -/
| decimalMark
/- `e`, `e+` or `e-` in a float. -/
| exponentMark
/- `_` between digits. -/
| separator
/- `0` before a base letter. -/
| baseZero
| binaryBase
| octalBase
| hexadecimalBase
| unknownBase
/- `?`. -/
| characterMark
/- The character, or escape, behind `?`. -/
| character
| promoter (family : Family) (layout : Layout)
| fragment (family : Family)
| terminator (family : Family) (layout : Layout)
| tilde
/- A sigil name in lower case: escapes and interpolation count. -/
| readSigilName
/- A sigil name in upper case: the body is taken as it is. -/
| literalSigilName
| sigilModifiers
| escapeSequence
/- `#` and an opening curly. -/
| interpolationStart
/- The curly that ends an interpolation. -/
| interpolationEnd
/- The blanks at the start of a heredoc line. -/
| heredocIndent
deriving DecidableEq, Repr, Inhabited

namespace Kind

------------------------------------------------------------
-- Names
------------------------------------------------------------

/- The name of a delimiter within the names of its kinds. -/
def bracketName : Bracket → String
| .parenthesis => "PARENTHESIS"
| .square => "BRACKET"
| .curly => "CURLY"
| .bits => "BIT"

def wordName : Word → String
| .after => "AFTER"
| .catch => "CATCH"
| .do => "DO"
| .else => "ELSE"
| .end => "END"
| .fn => "FN"
| .rescue => "RESCUE"
| .true => "TRUE"
| .false => "FALSE"
| .nil => "NIL"

def operatorName : Operator → String
| .addition => "ADDITION_OPERATOR"
| .subtraction => "SUBTRACTION_OPERATOR"
| .negation => "NEGATE_OPERATOR"
| .identity => "NUMBER_OR_BADARITH_OPERATOR"
| .unary => "UNARY_OPERATOR"
| .notWord => "NOT_OPERATOR"
| .andSymbol => "AND_SYMBOL_OPERATOR"
| .andWord => "AND_WORD_OPERATOR"
| .orSymbol => "OR_SYMBOL_OPERATOR"
| .orWord => "OR_WORD_OPERATOR"
| .arrow => "ARROW_OPERATOR"
| .association => "ASSOCIATION_OPERATOR"
| .atSign => "AT_OPERATOR"
| .capture => "CAPTURE_OPERATOR"
| .comparison => "COMPARISON_OPERATOR"
| .division => "DIVISION_OPERATOR"
| .inWord => "IN_OPERATOR"
| .inMatch => "IN_MATCH_OPERATOR"
| .matching => "MATCH_OPERATOR"
| .multiplication => "MULTIPLICATION_OPERATOR"
| .pipe => "PIPE_OPERATOR"
| .power => "POWER_OPERATOR"
| .range => "RANGE_OPERATOR"
| .relational => "RELATIONAL_OPERATOR"
| .stab => "STAB_OPERATOR"
| .struct => "STRUCT_OPERATOR"
| .concatenation => "TWO_OPERATOR"
| .whenWord => "WHEN_OPERATOR"
| .xor => "XOR_OPERATOR"

def radixName : Radix → String
| .decimal => "DECIMAL"
| .binary => "BINARY"
| .octal => "OCTAL"
| .hexadecimal => "HEXADECIMAL"

def familyName : Family → String
| .string => "STRING"
| .charlist => "CHAR_LIST"
| .sigil => "SIGIL"

def layoutName : Layout → String
| .quoted => ""
| .heredoc => "_HEREDOC"

/- The name under which a kind is listed. -/
def name : Kind → String
| whiteSpace => "WHITE_SPACE"
| endOfLine => "EOL"
| comment => "COMMENT"
| badCharacter => "BAD_CHARACTER"
| opening b => "OPENING_" ++ bracketName b
| closing b => "CLOSING_" ++ bracketName b
| comma => "COMMA"
| semicolon => "SEMICOLON"
| dot => "DOT_OPERATOR"
| colon => "COLON"
| doubleColon => "TYPE_OPERATOR"
| identifier => "IDENTIFIER_TOKEN"
| .alias => "ALIAS_TOKEN"
| atomName => "ATOM_FRAGMENT"
| word w => wordName w
| operator o => operatorName o
| digits r => "VALID_" ++ radixName r ++ "_DIGITS"
| badDigits r => "INVALID_" ++ radixName r ++ "_DIGITS"
| badBaseDigits => "INVALID_UNKNOWN_BASE_DIGITS"
| decimalMark => "DECIMAL_MARK"
| exponentMark => "EXPONENT_MARK"
| separator => "NUMBER_SEPARATOR"
| baseZero => "BASE_WHOLE_NUMBER_PREFIX"
| binaryBase => "BINARY_WHOLE_NUMBER_BASE"
| octalBase => "OCTAL_WHOLE_NUMBER_BASE"
| hexadecimalBase => "HEXADECIMAL_WHOLE_NUMBER_BASE"
| unknownBase => "UNKNOWN_WHOLE_NUMBER_BASE"
| characterMark => "CHAR_TOKENIZER"
| character => "CHARACTER_TOKEN"
| promoter f l => familyName f ++ layoutName l ++ "_PROMOTER"
| fragment f => familyName f ++ "_FRAGMENT"
| terminator f l => familyName f ++ layoutName l ++ "_TERMINATOR"
| tilde => "TILDE"
| readSigilName => "INTERPOLATING_SIGIL_NAME"
| literalSigilName => "LITERAL_SIGIL_NAME"
| sigilModifiers => "SIGIL_MODIFIERS"
| escapeSequence => "ESCAPE_SEQUENCE"
| interpolationStart => "INTERPOLATION_START"
| interpolationEnd => "INTERPOLATION_END"
| heredocIndent => "HEREDOC_LINE_PREFIX"

------------------------------------------------------------
-- Enumeration
------------------------------------------------------------

def allBrackets : List Bracket :=
  [.parenthesis, .square, .curly, .bits]

def allWords : List Word :=
  [.after, .catch, .do, .else, .end, .fn, .rescue, .true, .false, .nil]

def allOperators : List Operator :=
  [.addition, .subtraction, .negation, .identity, .unary, .notWord,
   .andSymbol, .andWord, .orSymbol, .orWord, .arrow, .association,
   .atSign, .capture, .comparison, .division, .inWord, .inMatch,
   .matching, .multiplication, .pipe, .power, .range, .relational,
   .stab, .struct, .concatenation, .whenWord, .xor]

def allRadixes : List Radix :=
  [.decimal, .binary, .octal, .hexadecimal]

def allFamilies : List Family :=
  [.string, .charlist, .sigil]

/- Every kind, once. -/
def all : List Kind :=
  [whiteSpace, endOfLine, comment, badCharacter, comma, semicolon, dot,
   colon, doubleColon, identifier, .alias, atomName, badBaseDigits,
   decimalMark, exponentMark, separator, baseZero, binaryBase,
   octalBase, hexadecimalBase, unknownBase, characterMark, character,
   tilde, readSigilName, literalSigilName, sigilModifiers,
   escapeSequence, interpolationStart, interpolationEnd, heredocIndent]
  ++ allBrackets.map opening
  ++ allBrackets.map closing
  ++ allWords.map word
  ++ allOperators.map operator
  ++ allRadixes.map digits
  ++ allRadixes.map badDigits
  ++ allFamilies.map fragment
  ++ allFamilies.map (promoter · .quoted)
  ++ allFamilies.map (promoter · .heredoc)
  ++ allFamilies.map (terminator · .quoted)
  ++ allFamilies.map (terminator · .heredoc)

/- The kind of a name. -/
def ofName?
    (name : String) : Option Kind :=
  all.find? (fun k => k.name == name)

theorem mem_all
    (k : Kind) :
    k ∈ all := by
  cases k with
  | opening b => cases b <;> decide
  | closing b => cases b <;> decide
  | word w => cases w <;> decide
  | operator o => cases o <;> decide
  | digits r => cases r <;> decide
  | badDigits r => cases r <;> decide
  | fragment f => cases f <;> decide
  | promoter f l => cases f <;> cases l <;> decide
  | terminator f l => cases f <;> cases l <;> decide
  | _ => decide

------------------------------------------------------------
-- Classes of kinds
------------------------------------------------------------

/- Trivia carry no meaning: white space and comments. -/
def isTrivia : Kind → Bool
| whiteSpace => true
| comment => true
| _ => false

/- A token of a faulty kind has been reported as an error. -/
def isFaulty : Kind → Bool
| badCharacter => true
| badDigits _ => true
| badBaseDigits => true
| _ => false

/- The kinds of which number literals consist. -/
def isNumberPart : Kind → Bool
| digits _ => true
| badDigits _ => true
| badBaseDigits => true
| decimalMark => true
| exponentMark => true
| separator => true
| baseZero => true
| binaryBase => true
| octalBase => true
| hexadecimalBase => true
| unknownBase => true
| _ => false

end Kind

end ElixirReader
