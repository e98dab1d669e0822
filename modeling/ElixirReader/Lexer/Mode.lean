/-
  This file defines the modes of the lexer. The mode behind a
  token decides how the next characters are read: whether `-`
  negates or subtracts, whether a newline ends the expression,
  whether a name may be a keyword key.

  Key definitions include:
    * `Mode`
    * `Mode.name`
    * `Mode.all`
    * `Mode.ofName?`
    * `Mode.followsOperand`
    * `Mode.isNumber`
    * `Mode.isGroup`
    * `Mode.newlineIsBlank`
    * `Mode.afterBlank`
-/

namespace ElixirReader

------------------------------------------------------------
-- Modes
------------------------------------------------------------

inductive Mode where
/- The start of an expression. -/
| initial
/- Behind a closing bracket, an atom, a character, or blanks
   that follow an operand. -/
| afterOperand
/- Behind an alias. -/
| afterAlias
/- Behind `true`, `false`, `nil` or a string, where a colon
   may still make a key of it. -/
| afterLiteral
/- Right behind an identifier. -/
| afterIdentifier
/- Behind an identifier and blanks, where a sign that touches
   its operand starts an argument. -/
| afterSpacedIdentifier
/- Behind a `:` that no blank follows. -/
| atomStart
/- Behind the `0` of a number with a base letter. -/
| baseLetter
| binaryDigits
| octalDigits
| hexadecimalDigits
| unknownDigits
| decimalDigits
| fractionDigits
| exponentDigits
/- Behind `.`, where any name is the name of a call. -/
| afterDot
/- Behind `end`, `!`, `^`, `%` or a keyword key. -/
| afterMark
/- Behind a binary operator or a block word, where newlines
   continue the expression. -/
| afterOperator
/- Behind an opening bracket, `;` or `::`. -/
| afterOpening
/- Behind `?`. -/
| character
/- Behind `~`, at the sigil's name or promoter. -/
| sigil
/- Behind the terminator of a sigil. -/
| sigilModifiers
/- Inside a literal that is no heredoc. -/
| group
/- On the line of a heredoc's promoter. -/
| heredocStart
/- At the start of a heredoc line. -/
| heredocLineStart
/- Inside a heredoc line. -/
| heredocLineBody
deriving DecidableEq, Repr, Inhabited

namespace Mode

------------------------------------------------------------
-- Names
------------------------------------------------------------

/- The name under which a mode is listed. -/
def name : Mode → String
| initial => "YYINITIAL"
| afterOperand => "ADDITION_OR_SUBTRACTION_MAYBE"
| afterAlias => "ADDITION_OR_SUBTRACTION_OR_WHITE_SPACE_MAYBE"
| afterLiteral =>
    "ADDITION_OR_KEYWORD_PAIR_OR_SUBTRACTION_OR_WHITE_SPACE_MAYBE"
| afterIdentifier => "AFTER_UNQUALIFIED_IDENTIFIER"
| afterSpacedIdentifier => "CALL_OR_ADDITION_OR_SUBTRACTION_MAYBE"
| atomStart => "ATOM_START"
| baseLetter => "BASE_WHOLE_NUMBER_BASE"
| binaryDigits => "BINARY_WHOLE_NUMBER"
| octalDigits => "OCTAL_WHOLE_NUMBER"
| hexadecimalDigits => "HEXADECIMAL_WHOLE_NUMBER"
| unknownDigits => "UNKNOWN_BASE_WHOLE_NUMBER"
| decimalDigits => "DECIMAL_WHOLE_NUMBER"
| fractionDigits => "DECIMAL_FRACTION"
| exponentDigits => "DECIMAL_EXPONENT"
| afterDot => "DOT_OPERATION"
| afterMark => "KEYWORD_PAIR_MAYBE"
| afterOperator => "KEYWORD_PAIR_OR_MULTILINE_WHITE_SPACE_MAYBE"
| afterOpening => "MULTILINE_WHITE_SPACE_MAYBE"
| character => "CHAR_TOKENIZATION"
| sigil => "SIGIL"
| sigilModifiers => "SIGIL_MODIFIERS"
| group => "GROUP"
| heredocStart => "GROUP_HEREDOC_START"
| heredocLineStart => "GROUP_HEREDOC_LINE_START"
| heredocLineBody => "GROUP_HEREDOC_LINE_BODY"

/- Every mode, in the order in which modes are numbered. -/
def all : List Mode :=
  [initial, afterOperand, afterAlias, afterLiteral, afterIdentifier,
   afterSpacedIdentifier, atomStart, baseLetter, binaryDigits,
   octalDigits, hexadecimalDigits, unknownDigits, decimalDigits,
   fractionDigits, exponentDigits, afterDot, afterMark, afterOperator,
   afterOpening, character, sigil, sigilModifiers, group, heredocStart,
   heredocLineStart, heredocLineBody]

/- The mode of a name. -/
def ofName?
    (name : String) : Option Mode :=
  all.find? (fun m => m.name == name)

/- The number of a mode. -/
def index
    (m : Mode) : Nat :=
  all.idxOf m

theorem mem_all
    (m : Mode) :
    m ∈ all := by
  cases m <;> decide

theorem ofName?_name
    (m : Mode) :
    ofName? m.name = some m := by
  cases m <;> decide

------------------------------------------------------------
-- Classes of modes
------------------------------------------------------------

/- The modes that read the digits of a number. -/
def isNumber : Mode → Bool
| binaryDigits => true
| octalDigits => true
| hexadecimalDigits => true
| unknownDigits => true
| decimalDigits => true
| fractionDigits => true
| exponentDigits => true
| _ => false

/- The modes right behind an operand, where signs are binary. -/
def followsOperand : Mode → Bool
| afterOperand => true
| afterAlias => true
| afterLiteral => true
| afterIdentifier => true
| m => m.isNumber

/- The modes inside a quoted literal. -/
def isGroup : Mode → Bool
| group => true
| heredocStart => true
| heredocLineStart => true
| heredocLineBody => true
| _ => false

/- The modes in which a newline is white space. -/
def newlineIsBlank : Mode → Bool
| afterOpening => true
| afterOperator => true
| afterDot => true
| _ => false

/- The mode behind a run of blanks. -/
def afterBlank : Mode → Mode
| afterOpening => afterOpening
| afterOperator => afterOpening
| afterIdentifier => afterSpacedIdentifier
| afterSpacedIdentifier => afterSpacedIdentifier
| afterDot => afterDot
| m => if m.followsOperand then afterOperand else initial

end Mode

end ElixirReader
