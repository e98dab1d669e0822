import ElixirReader.Decimal.Numeral
import ElixirReader.Parser.State

/-
  This file defines number literals: the tokens of which one
  consists, and its value.

  Key definitions include:
    * `numberParts`
    * `numberForm?`
    * `Parse.number`
-/

namespace ElixirReader

------------------------------------------------------------
-- Values
------------------------------------------------------------

/- The lexemes of a number; they touch each other. -/
def numberParts : List Lexeme → List Lexeme
| [] => []
| l :: ls =>
    if l.kind.isNumberPart then
      l :: ls.takeWhile (fun l' => l'.kind.isNumberPart && !l'.spaced)
    else
      []

/- The characters of some lexemes. -/
def partsText
    (parts : List Lexeme) : String :=
  String.join (parts.map Lexeme.text)

/- The base that a letter names. -/
def letterBase? : Kind → Option Nat
| .binaryBase => some 2
| .octalBase => some 8
| .hexadecimalBase => some 16
| _ => none

/- The digits of the bases that have a letter. -/
def isBasedDigits : Kind → Bool
| .digits .binary => true
| .digits .octal => true
| .digits .hexadecimal => true
| _ => false

/- The value behind a base letter. -/
def basedForm?
    (base : Nat)
    (parts : List Lexeme) : Option (Form Node) :=
  (Numeral.integer? base
    (partsText (parts.filter (isBasedDigits ·.kind))).toList).map .integer

/- The value of a number without a base letter. -/
def decimalForm?
    (parts : List Lexeme) : Option (Form Node) :=
  let text := partsText (parts.filter (·.kind != .separator))
  if parts.any (·.kind == .decimalMark) then
    (Numeral.decimal? text.toList).map .float
  else
    (Numeral.integer? 10 text.toList).map .integer

/- The value of a number; there is none without digits. -/
def numberForm? : List Lexeme → Option (Form Node)
| [] => none
| l :: ls =>
    if l.kind = .baseZero then
      match ls with
      | [] => none
      | letter :: digits =>
          (letterBase? letter.kind).bind (basedForm? · digits)
    else
      decimalForm? (l :: ls)

------------------------------------------------------------
-- Literals
------------------------------------------------------------

namespace Parse

/- The span from the first to the last of some lexemes. -/
def coveringSpan
    (l : Lexeme)
    (ls : List Lexeme) : Span :=
  l.span.merge ((ls.getLast?.map Lexeme.span).getD l.span)

/-
  A number. If some of its digits are faulty the error has been
  reported already.
-/
def number : Parse Node := do
  match numberParts (← rest) with
  | [] => errorNode .unexpectedEnd
  | l :: ls =>
      skip (ls.length + 1)
      let span := coveringSpan l ls
      let fault := ParseFault.invalidNumber (partsText (l :: ls))
      if (l :: ls).any (·.kind.isFaulty) then
        poison
        return Node.failure fault.message span
      else
        match numberForm? (l :: ls) with
        | some form => return ⟨form, span⟩
        | none => failure fault span span

end Parse

end ElixirReader
