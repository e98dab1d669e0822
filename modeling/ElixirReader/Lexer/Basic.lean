import ElixirReader.Lexer.Transition

/-
  This file defines the lexer: what is left of a source, where
  it stands, and what is open. Taking a token never fails; what
  is wrong with its text is kept aside as an error.

  Key definitions include:
    * `Lexer`
    * `Lexer.startingIn`
    * `Lexer.next`
    * `Lexer.take`
    * `Lexer.drain`
    * `Lexer.raise`
    * `tokenize`
-/

namespace ElixirReader

------------------------------------------------------------
-- State
------------------------------------------------------------

/-
  A lexer may be stopped from outside: `raised` says that a
  stop was asked for, `stopped` that the lexer has seen it.
  `ended` says that the end of the source was reached.
-/
structure Lexer where
  rest : List Char
  here : Position
  mode : Mode
  frames : List Frame := []
  sigil : Option Bool := none
  errors : List LexError := []
  raised : Bool := false
  stopped : Bool := false
  ended : Bool := false
deriving DecidableEq, Repr

/- What is wrong with a token, judged by its kind and text. -/
def Kind.fault?
    (kind : Kind)
    (text : List Char) : Option LexFault :=
  match kind with
  | .badCharacter => text.head?.map LexFault.badCharacter
  | .badDigits r => some (.invalidDigits (some r) (String.ofList text))
  | .badBaseDigits => some (.invalidDigits none (String.ofList text))
  | _ => none

namespace Lexer

------------------------------------------------------------
-- Start
------------------------------------------------------------

/- The byte order mark. -/
def byteOrderMark : Char :=
  '\ufeff'

/- The source without a leading byte order mark. -/
def body : List Char → List Char
| [] => []
| c :: cs => if c = byteOrderMark then cs else c :: cs

/-
  The place where a source starts. A byte order mark takes up
  bytes, but no column.
-/
def origin
    (source : List Char) : Position :=
  if source.head? = some byteOrderMark then
    ⟨byteOrderMark.utf8Size, 1, 1⟩
  else
    ⟨0, 1, 1⟩

/-
  The constructs that are open in a mode at the start. A mode
  inside a group starts as if a string had just been opened.
-/
def initialFrames
    (mode : Mode)
    (origin : Position) : List Frame :=
  if mode.isGroup then
    [.group (Group.string (if mode = .group then .quoted else .heredoc))
      (origin.spanOf [])]
  else
    []

/- A lexer at the start of a source. -/
def startingIn
    (mode : Mode)
    (source : String) : Lexer :=
  { rest := body source.toList
    here := origin source.toList
    mode := mode
    frames := initialFrames mode (origin source.toList) }

/- A lexer at the start of a source and of an expression. -/
def ofSource
    (source : String) : Lexer :=
  startingIn .initial source

------------------------------------------------------------
-- Tokens
------------------------------------------------------------

/- The promoter of the outermost group that is still open. -/
def outermostGroup?
    (frames : List Frame) : Option (Group × Span) :=
  frames.reverse.findSome? fun f =>
    match f with
    | .group g opened => some (g, opened)
    | .interpolation _ _ => none

/- The error of a source that ends inside a group. -/
def unterminated?
    (frames : List Frame) : Option LexError :=
  (outermostGroup? frames).map fun (g, opened) =>
    ⟨.unterminatedGroup g.terminatorText, opened⟩

/- Note the end of the source, once. -/
def finish
    (l : Lexer) : Lexer :=
  if l.ended then l
  else
    { l with
      ended := true
      errors := l.errors ++ (unterminated? l.frames).toList }

/- The transition of the next token. -/
def transition
    (l : Lexer)
    (c : Char)
    (cs : List Char) : Transition :=
  Transition.of l.mode l.sigil l.frames.head? c cs

/- The token that a transition takes. -/
def tokenOf
    (l : Lexer)
    (t : Transition)
    (text : List Char) : Token :=
  ⟨t.kind, String.ofList text, l.here.spanOf text⟩

/- The error that a token shows, if any. -/
def errorOf?
    (l : Lexer)
    (t : Transition)
    (text : List Char) : Option LexError :=
  (t.fault.or (t.kind.fault? text)).map (⟨·, l.here.spanOf text⟩)

/- The lexer behind a token. -/
def past
    (l : Lexer)
    (t : Transition)
    (text : List Char)
    (rest : List Char) : Lexer :=
  { l with
    rest := rest
    here := l.here.after text
    mode := t.mode
    frames := t.change.apply (l.here.spanOf text) l.frames
    sigil := t.sigil
    errors := l.errors ++ (l.errorOf? t text).toList }

/-
  Take the next token. There is none behind the end of the
  source, nor after a stop.
-/
def next
    (l : Lexer) : Option Token × Lexer :=
  if l.stopped then (none, l)
  else if l.raised then (none, { l with stopped := true })
  else
    match l.rest with
    | [] => (none, l.finish)
    | c :: cs =>
        let t := l.transition c cs
        let text := c :: cs.take t.more
        (some (l.tokenOf t text), l.past t text (cs.drop t.more))

/- Ask a lexer to stop before its next token. -/
def raise
    (l : Lexer) : Lexer :=
  { l with raised := true }

------------------------------------------------------------
-- Runs of tokens
------------------------------------------------------------

/-
  At most `n` tokens, each with the mode behind it, and the
  lexer behind them. The first time that there is no token is
  part of the run.
-/
def take : Nat → Lexer → List (Token × Mode) × Lexer
| 0, l => ([], l)
| n + 1, l =>
    match l.next with
    | (none, l') => ([], l')
    | (some t, l') =>
        let (ts, last) := take n l'
        ((t, l'.mode) :: ts, last)

theorem take_of_none
    {l : Lexer}
    (n : Nat)
    (hNone : l.next.1 = none) :
    l.take (n + 1) = ([], l.next.2) := by
  rw [take, ← Prod.eta l.next, hNone]

theorem take_of_some
    {l : Lexer}
    {token : Token}
    (n : Nat)
    (hSome : l.next.1 = some token) :
    l.take (n + 1) =
      ((token, l.next.2.mode) :: (l.next.2.take n).1,
        (l.next.2.take n).2) := by
  rw [take, ← Prod.eta l.next, hSome]

/- All tokens that are left. -/
def drain
    (l : Lexer) : List (Token × Mode) × Lexer :=
  l.take (l.rest.length + 1)

end Lexer

/- All tokens of a source, and the errors that they show. -/
def tokenize
    (source : String) : List Token × List LexError :=
  let (tokens, l) := (Lexer.ofSource source).drain
  (tokens.map (·.1), l.errors)

end ElixirReader
