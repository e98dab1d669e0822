import ElixirReader.Token.Kind

/-
  This file defines the display categories of tokens. A
  category has a key, under which a color scheme lists it, and
  a general color for schemes that do not.

  Key definitions include:
    * `Category`
    * `Category.key`
    * `Category.fallback`
    * `Kind.categories`
-/

namespace ElixirReader

------------------------------------------------------------
-- Categories
------------------------------------------------------------

inductive Category where
| alias
| atom
| badCharacter
| bit
| braces
| brackets
| charlist
| charToken
| comma
| comment
| decimal
| dot
| interpolation
| identifier
| invalidDigit
| keyword
| map
| moduleAttribute
| operation
| parentheses
| semicolon
| sigil
| string
| validDigit
| escape
| base
deriving DecidableEq, Repr, Inhabited

namespace Category

/- The key of a category in a color scheme. -/
def key : Category → String
| .alias => "ELIXIR_ALIAS"
| atom => "ELIXIR_ATOM"
| badCharacter => "ELIXIR_BAD_CHARACTER"
| bit => "ELIXIR_BIT"
| braces => "ELIXIR_BRACES"
| brackets => "ELIXIR_BRACKETS"
| charlist => "ELIXIR_CHAR_LIST"
| charToken => "ELIXIR_CHAR_TOKEN"
| comma => "ELIXIR_COMMA"
| comment => "ELIXIR_COMMENT"
| decimal => "ELIXIR_DECIMAL"
| dot => "ELIXIR_DOT"
| interpolation => "ELIXIR_EXPRESSION_SUBSTITUTION_MARK"
| identifier => "ELIXIR_IDENTIFIER"
| invalidDigit => "ELIXIR_INVALID_DIGIT"
| keyword => "ELIXIR_KEYWORD"
| map => "ELIXIR_MAP"
| moduleAttribute => "ELIXIR_MODULE_ATTRIBUTE"
| operation => "ELIXIR_OPERATION_SIGN"
| parentheses => "ELIXIR_PARENTHESES"
| semicolon => "ELIXIR_SEMICOLON"
| sigil => "ELIXIR_SIGIL"
| string => "ELIXIR_STRING"
| validDigit => "ELIXIR_VALID_DIGIT"
| escape => "ELIXIR_VALID_ESCAPE_SEQUENCE"
| base => "ELIXIR_WHOLE_NUMBER_BASE"

/- The color where a scheme does not list the key. -/
def fallback : Category → String
| .alias => "CLASS_NAME"
| atom => "INSTANCE_FIELD"
| badCharacter => "BAD_CHARACTER"
| bit => "BRACES"
| braces => "BRACES"
| brackets => "BRACKETS"
| charlist => "STRING"
| charToken => "MARKUP_ENTITY"
| comma => "COMMA"
| comment => "LINE_COMMENT"
| decimal => "NUMBER"
| dot => "DOT"
| interpolation => "BRACES"
| identifier => "IDENTIFIER"
| invalidDigit => "BAD_CHARACTER"
| keyword => "KEYWORD"
| map => "BRACES"
| moduleAttribute => "CONSTANT"
| operation => "OPERATION_SIGN"
| parentheses => "PARENTHESES"
| semicolon => "SEMICOLON"
| sigil => "TEMPLATE_LANGUAGE_COLOR"
| string => "STRING"
| validDigit => "NUMBER"
| escape => "VALID_STRING_ESCAPE"
| base => "NUMBER"

end Category

------------------------------------------------------------
-- Categories of kinds
------------------------------------------------------------

namespace Kind

def bracketCategory : Bracket → Category
| .parenthesis => .parentheses
| .square => .brackets
| .curly => .braces
| .bits => .bit

/- The literal words are atoms too. -/
def wordCategories : Word → List Category
| .true => [.atom, .keyword]
| .false => [.atom, .keyword]
| .nil => [.atom, .keyword]
| _ => [.keyword]

def operatorCategory : Operator → Category
| .notWord => .keyword
| .andWord => .keyword
| .orWord => .keyword
| .inWord => .keyword
| .whenWord => .keyword
| .atSign => .moduleAttribute
| .struct => .map
| _ => .operation

def familyCategory : Family → Category
| .string => .string
| .charlist => .charlist
| .sigil => .sigil

/- The categories of a kind. White space has none. -/
def categories : Kind → List Category
| whiteSpace => []
| endOfLine => []
| heredocIndent => []
| comment => [.comment]
| badCharacter => [.badCharacter]
| opening b => [bracketCategory b]
| closing b => [bracketCategory b]
| comma => [.comma]
| semicolon => [.semicolon]
| dot => [.dot]
| colon => [.atom]
| doubleColon => [.operation]
| identifier => [.identifier]
| .alias => [.alias]
| atomName => [.atom]
| word w => wordCategories w
| operator o => [operatorCategory o]
| digits _ => [.validDigit]
| badDigits _ => [.invalidDigit]
| badBaseDigits => [.invalidDigit]
| decimalMark => [.decimal]
| exponentMark => [.decimal]
| separator => [.decimal]
| baseZero => [.base]
| binaryBase => [.base]
| octalBase => [.base]
| hexadecimalBase => [.base]
| unknownBase => [.base]
| characterMark => [.charToken]
| character => [.charToken]
| promoter f _ => [familyCategory f]
| fragment f => [familyCategory f]
| terminator f _ => [familyCategory f]
| tilde => [.sigil]
| readSigilName => [.sigil]
| literalSigilName => [.sigil]
| sigilModifiers => [.sigil]
| escapeSequence => [.escape]
| interpolationStart => [.interpolation]
| interpolationEnd => [.interpolation]

end Kind

end ElixirReader
