import ElixirReader.Lexer.Basic
import ElixirReader.Parser.Stopping
import ElixirReader.Quote.Basic
import ElixirReader.Token.Category

/-
  This file defines what one pass over a source finds out: its
  tokens, its syntax tree, its term, and all errors. A faulty
  source has all of these too; only a stop that was asked for
  leaves nothing.

  Key definitions include:
    * `SourceError`
    * `Analysis`
    * `analyze`
    * `quoteSource`
    * `highlight`
-/

namespace ElixirReader

------------------------------------------------------------
-- Errors of a source
------------------------------------------------------------

/- An error of a token, or of how tokens are put together. -/
inductive SourceError where
| lex (error : LexError)
| parse (error : ParseError)
deriving DecidableEq, Repr, Inhabited

namespace SourceError

def span : SourceError → Span
| .lex e => e.span
| .parse e => e.span

def message : SourceError → String
| .lex e => e.message
| .parse e => e.message

/- All errors of a source, those of tokens first. -/
def all
    (lexErrors : List LexError)
    (parseErrors : List ParseError) : List SourceError :=
  lexErrors.map .lex ++ parseErrors.map .parse

end SourceError

------------------------------------------------------------
-- Analyses
------------------------------------------------------------

structure Analysis where
  tokens : List Token
  document : Document
  term : Term
  errors : List SourceError

/- A lexer that may have been asked to stop before it starts. -/
def Lexer.raisedIf
    (raised : Bool)
    (l : Lexer) : Lexer :=
  if raised then l.raise else l

/-
  Lex, parse and quote a source. A stop is seen by the lexer
  before a token, and by the parser before an expression.
-/
def analyze
    (m : Metadata)
    (raised : Bool)
    (source : String) : Except Cancelled Analysis := do
  let (lexed, l) := ((Lexer.ofSource source).raisedIf raised).drain
  if l.stopped then
    throw .cancelled
  let tokens := lexed.map (·.1)
  let (document, errors) ← parseUnless raised tokens
  return ⟨tokens, document, document.quote m, SourceError.all l.errors errors⟩

/- The term of a source, and all errors in it. -/
def quoteSource
    (m : Metadata)
    (source : String) : Term × List SourceError :=
  let (tokens, lexErrors) := tokenize source
  let (document, parseErrors) := parse tokens
  (document.quote m, SourceError.all lexErrors parseErrors)

------------------------------------------------------------
-- Highlighting
------------------------------------------------------------

/- The texts of all tokens with the categories they show. -/
def highlight
    (source : String) : List (String × List Category) :=
  (tokenize source).1.map fun t => (t.text, t.kind.categories)

end ElixirReader
