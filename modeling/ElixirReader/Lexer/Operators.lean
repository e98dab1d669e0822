import ElixirReader.Lexer.Mode
import ElixirReader.Token.Kind

/-
  This file lists the operators by their texts. A longer text
  comes before every text that it starts with, so the first
  entry that fits is the longest.

  Key definitions include:
    * `OperatorEntry`
    * `operatorTable`
    * `atomOperators`
    * `callOperators`
    * `firstPrefix?`
-/

namespace ElixirReader

------------------------------------------------------------
-- Operators in expressions
------------------------------------------------------------

/- An operator's text, its kind, and the mode behind it. -/
structure OperatorEntry where
  text : String
  kind : Kind
  mode : Mode
deriving DecidableEq, Repr

/-
  The operators whose kind does not hang on what stands around
  them, those that start with a backslash, a dot, a colon or a
  tilde apart.
-/
def operatorTable : List OperatorEntry :=
  [⟨"!==", .operator .comparison, .afterOperator⟩,
   ⟨"===", .operator .comparison, .afterOperator⟩,
   ⟨"&&&", .operator .andSymbol, .afterOperator⟩,
   ⟨"|||", .operator .orSymbol, .afterOperator⟩,
   ⟨"<<<", .operator .arrow, .afterOperator⟩,
   ⟨">>>", .operator .arrow, .afterOperator⟩,
   ⟨"<<~", .operator .arrow, .afterOperator⟩,
   ⟨"<|>", .operator .arrow, .afterOperator⟩,
   ⟨"<~>", .operator .arrow, .afterOperator⟩,
   ⟨"^^^", .operator .xor, .afterOperator⟩,
   ⟨"!=", .operator .comparison, .afterOperator⟩,
   ⟨"==", .operator .comparison, .afterOperator⟩,
   ⟨"=~", .operator .comparison, .afterOperator⟩,
   ⟨"=>", .operator .association, .afterOperator⟩,
   ⟨"&&", .operator .andSymbol, .afterOperator⟩,
   ⟨"||", .operator .orSymbol, .afterOperator⟩,
   ⟨"|>", .operator .arrow, .afterOperator⟩,
   ⟨"++", .operator .concatenation, .afterOperator⟩,
   ⟨"--", .operator .concatenation, .afterOperator⟩,
   ⟨"<>", .operator .concatenation, .afterOperator⟩,
   ⟨"->", .operator .stab, .afterOperator⟩,
   ⟨"**", .operator .power, .afterOperator⟩,
   ⟨"<-", .operator .inMatch, .afterOperator⟩,
   ⟨"<=", .operator .relational, .afterOperator⟩,
   ⟨">=", .operator .relational, .afterOperator⟩,
   ⟨"<~", .operator .arrow, .afterOperator⟩,
   ⟨"<<", .opening .bits, .afterOpening⟩,
   ⟨">>", .closing .bits, .afterOperand⟩,
   ⟨"!", .operator .unary, .afterMark⟩,
   ⟨"^", .operator .unary, .afterMark⟩,
   ⟨"%", .operator .struct, .afterMark⟩,
   ⟨"&", .operator .capture, .afterOperator⟩,
   ⟨"*", .operator .multiplication, .afterOperator⟩,
   ⟨"/", .operator .division, .afterOperator⟩,
   ⟨"<", .operator .relational, .afterOperator⟩,
   ⟨">", .operator .relational, .afterOperator⟩,
   ⟨"=", .operator .matching, .afterOperator⟩,
   ⟨"|", .operator .pipe, .afterOperator⟩,
   ⟨"@", .operator .atSign, .afterOperator⟩]

/- The operators that start with a tilde. -/
def tildeTable : List OperatorEntry :=
  [⟨"~~~", .operator .unary, .afterMark⟩,
   ⟨"~>>", .operator .arrow, .afterOperator⟩,
   ⟨"~>", .operator .arrow, .afterOperator⟩]

/- The first entry whose text the characters start with. -/
def OperatorEntry.find?
    (table : List OperatorEntry)
    (cs : List Char) : Option OperatorEntry :=
  table.find? (fun e => e.text.toList.isPrefixOf cs)

------------------------------------------------------------
-- Operators as names
------------------------------------------------------------

/- The operators that may follow the colon of an atom. -/
def atomOperators : List String :=
  ["<<>>", "%\x7b\x7d", "...", "!==", "===", "<<<", ">>>", "<<~", "~>>",
   "<~>", "<|>", "&&&", "|||", "^^^", "~~~", "\\\\", "\x7b\x7d", "..",
   "!=", "==", "=~", "<=", ">=", "&&", "||", "|>", "++", "--", "**",
   "->", "<-", "<>", "<~", "~>", "::", ".", "%", "&", "|", "=", "!",
   "<", ">", "+", "-", "*", "/", "^", "@"]

/- The operators that may be called by name behind a dot. -/
def callOperators : List String :=
  ["!==", "===", "<<<", ">>>", "<<~", "~>>", "<~>", "<|>", "&&&", "|||",
   "^^^", "~~~", "!=", "==", "=~", "<=", ">=", "&&", "||", "|>", "++",
   "--", "**", "->", "<-", "<>", "<~", "~>", "&", "|", "=", "!", "<",
   ">", "+", "-", "*", "/", "^", "@"]

/- The first of some texts that the characters start with. -/
def firstPrefix?
    (texts : List String)
    (cs : List Char) : Option String :=
  texts.find? (fun t => t.toList.isPrefixOf cs)

end ElixirReader
