import ElixirReader.Parser.Expression

/-
  This file shows that no part of the parser takes back what
  it has done: the errors that were noted stay, a loop that
  was given up stays so, and lexemes that were taken are not
  put back. This holds of whatever is put together from such
  parts, so it is found by looking at how a part is written.

  Key definitions include:
    * `Later`
    * `Retains`

  Main declarations:
    * `Retains.bind`
    * `retains_expression`
-/

namespace ElixirReader

open Parse

variable {α β : Type}
variable {k : Nat}
variable {s s' s'' : ParseState}

/- Nothing was taken back. -/
structure Later
    (s s' : ParseState) : Prop where
  errors : s.errors ⊆ s'.errors
  cutShort : s.cutShort = true → s'.cutShort = true
  rest : s'.rest <:+ s.rest

namespace Later

theorem refl
    (s : ParseState) :
    Later s s :=
  ⟨fun _ => id, id, List.suffix_refl _⟩

theorem trans
    (hFirst : Later s s')
    (hSecond : Later s' s'') :
    Later s s'' :=
  ⟨fun _ hMem => hSecond.errors (hFirst.errors hMem),
    hSecond.cutShort ∘ hFirst.cutShort,
    hSecond.rest.trans hFirst.rest⟩

end Later

/- A part that takes nothing back. -/
class Retains
    (p : Parse α) : Prop where
  later : ∀ s, Later s (p s).2

namespace Retains

variable {p q : Parse α}
variable {f : α → Parse β}
variable {expr : ExpressionParser}
variable {stop : Kind → Bool}

------------------------------------------------------------
-- Programs
------------------------------------------------------------

instance pure
    (a : α) :
    Retains (Pure.pure a : Parse α) :=
  ⟨Later.refl⟩

instance bind
    [hFirst : Retains p]
    [hSecond : ∀ a, Retains (f a)] :
    Retains (p >>= f) :=
  ⟨fun s => (hFirst.later s).trans ((hSecond _).later _)⟩

instance ite
    {c : Prop}
    [Decidable c]
    [hTrue : Retains p]
    [hFalse : Retains q] :
    Retains (if c then p else q) := by
  split
  · exact hTrue
  · exact hFalse

------------------------------------------------------------
-- Looking ahead
------------------------------------------------------------

/- A part that only looks at the state. -/
theorem of_look
    (hLook : ∀ s, (p s).2 = s) :
    Retains p := by
  constructor
  intro s
  rw [hLook]
  exact Later.refl s

instance rest : Retains Parse.rest := of_look fun _ => rfl

instance peek : Retains Parse.peek := of_look fun _ => rfl

instance isAt
    (kind : Kind) :
    Retains (Parse.isAt kind) :=
  of_look fun _ => rfl

instance currentSpan : Retains Parse.currentSpan :=
  of_look fun _ => rfl

instance previousSpan : Retains Parse.previousSpan :=
  of_look fun _ => rfl

instance found : Retains Parse.found := of_look fun _ => rfl

instance unexpected : Retains Parse.unexpected := by
  unfold Parse.unexpected
  refine @bind _ _ _ _ _ fun a => ?_
  cases a <;> infer_instance

------------------------------------------------------------
-- Taking lexemes
------------------------------------------------------------

instance skip
    (n : Nat) :
    Retains (Parse.skip n) :=
  ⟨fun s => ⟨fun _ => id, id, List.drop_suffix n s.rest⟩⟩

instance eat
    (kind : Kind) :
    Retains (Parse.eat kind) := by
  unfold Parse.eat
  refine @bind _ _ _ _ _ fun a => ?_
  cases a <;> infer_instance

instance skipLineEnds : Retains Parse.skipLineEnds := by
  unfold Parse.skipLineEnds
  infer_instance

instance skipSeparators : Retains Parse.skipSeparators := by
  unfold Parse.skipSeparators
  infer_instance

instance cutOff : Retains Parse.cutOff :=
  ⟨fun _ => ⟨fun _ => id, fun _ => rfl, List.suffix_refl _⟩⟩

/- Other fields of the state may change. -/
theorem of_modify
    {f : ParseState → ParseState}
    (hErrors : ∀ s, (f s).errors = s.errors)
    (hCut : ∀ s, (f s).cutShort = s.cutShort)
    (hRest : ∀ s, (f s).rest = s.rest) :
    Retains (modify f : Parse Unit) := by
  constructor
  intro s
  change Later s (f s)
  refine ⟨?_, ?_, ?_⟩
  · intro e hMember
    rw [hErrors]
    exact hMember
  · rw [hCut]
    exact id
  · exact ⟨[], hRest s⟩

instance enter :
    Retains (modify (·.enter) : Parse Unit) :=
  of_modify (fun _ => rfl) (fun _ => rfl) fun _ => rfl

instance leave :
    Retains (modify (·.leave) : Parse Unit) :=
  of_modify (fun _ => rfl) (fun _ => rfl) fun _ => rfl

instance setPoisoned
    (b : Bool) :
    Retains (modify fun s => { s with poisoned := b } :
      Parse Unit) :=
  of_modify (fun _ => rfl) (fun _ => rfl) fun _ => rfl

instance get :
    Retains (MonadState.get : Parse ParseState) :=
  of_look fun _ => rfl

instance nested
    [Retains p] :
    Retains (Parse.nested p) := by
  unfold Parse.nested
  infer_instance

instance isolated
    [Retains p] :
    Retains (Parse.isolated p) := by
  unfold Parse.isolated
  infer_instance

------------------------------------------------------------
-- Noting errors
------------------------------------------------------------

instance report
    (fault : ParseFault)
    (span : Span) :
    Retains (Parse.report fault span) := by
  constructor
  intro s
  change Later s (s.report fault span)
  unfold ParseState.report
  split
  · exact Later.refl s
  · exact ⟨List.subset_append_left _ _, id, List.suffix_refl _⟩

instance poison : Retains Parse.poison :=
  setPoisoned true

instance failure
    (fault : ParseFault)
    (errorSpan nodeSpan : Span) :
    Retains (Parse.failure fault errorSpan nodeSpan) := by
  unfold Parse.failure
  infer_instance

instance errorNode
    (fault : ParseFault) :
    Retains (Parse.errorNode fault) := by
  unfold Parse.errorNode
  infer_instance

instance lexicalErrorNode
    (l : Lexeme) :
    Retains (Parse.lexicalErrorNode l) := by
  unfold Parse.lexicalErrorNode
  infer_instance

instance wantedNode
    (wanted : Wanted) :
    Retains (Parse.wantedNode wanted) := by
  unfold Parse.wantedNode
  infer_instance

instance expect
    (kind : Kind)
    (wanted : Wanted) :
    Retains (Parse.expect kind wanted) := by
  unfold Parse.expect
  refine @bind _ _ _ _ _ fun a => ?_
  cases a <;> infer_instance

instance expectClosing
    (closer : Closer)
    (opened : Span) :
    Retains (Parse.expectClosing closer opened) := by
  unfold Parse.expectClosing
  refine @bind _ _ _ _ _ fun _ => @bind _ _ _ _ _ fun a => ?_
  cases a <;> infer_instance

instance close
    (closer : Closer)
    (opened : Span)
    (items : List Node) :
    Retains (Parse.close closer opened items) := by
  unfold Parse.close
  refine @bind _ _ _ _ _ fun a => ?_
  cases a <;> infer_instance

------------------------------------------------------------
-- Statements
------------------------------------------------------------

instance boundaryError? :
    Retains (Parse.boundaryError? stop) := by
  unfold Parse.boundaryError?
  refine @bind _ _ _ _ _ fun a => ?_
  cases a <;> infer_instance

instance recover
    (start : List Lexeme) :
    Retains (Parse.recover stop start) := by
  unfold Parse.recover synchronize
  infer_instance

instance ensureProgress
    (start : List Lexeme) :
    Retains (Parse.ensureProgress stop start) := by
  unfold Parse.ensureProgress
  infer_instance

instance finishStatement
    (start : List Lexeme) :
    Retains (Parse.finishStatement stop start) := by
  unfold Parse.finishStatement
  infer_instance

variable [∀ precedence context, Retains (expr precedence context)]

instance statement :
    Retains (Parse.statement expr stop) := by
  unfold Parse.statement
  infer_instance

instance statementsFor :
    Retains (Parse.statementsFor expr stop k) := by
  induction k with
  | zero =>
      unfold Parse.statementsFor
      infer_instance
  | succ k ih =>
      unfold Parse.statementsFor
      infer_instance

instance statements :
    Retains (Parse.statements expr stop) := by
  unfold Parse.statements
  infer_instance

------------------------------------------------------------
-- Literals
------------------------------------------------------------

instance number : Retains Parse.number := by
  unfold Parse.number
  refine @bind _ _ _ _ _ fun ls => ?_
  split
  · infer_instance
  · refine @bind _ _ _ _ _ fun _ => ?_
    dsimp only
    split
    · infer_instance
    · split <;> infer_instance

instance heredocStart : Retains Parse.heredocStart := by
  unfold Parse.heredocStart
  infer_instance

instance interpolationEnd
    (opened : Span) :
    Retains (Parse.interpolationEnd opened) := by
  unfold Parse.interpolationEnd
  refine @bind _ _ _ _ _ fun a => ?_
  cases a <;> infer_instance

instance interpolation
    (opened : Span) :
    Retains (Parse.interpolation expr opened) := by
  unfold Parse.interpolation
  infer_instance

instance segmentsFor
    (span : Span) :
    Retains (Parse.segmentsFor expr k span) := by
  induction k generalizing span with
  | zero =>
      unfold Parse.segmentsFor
      infer_instance
  | succ k ih =>
      unfold Parse.segmentsFor
      refine @bind _ _ _ _ _ fun a => ?_
      cases a with
      | none => infer_instance
      | some l =>
          dsimp only
          split <;> infer_instance

/- The end of a text does not hang on whether it is closed. -/
theorem poisonedUnless
    (closed : Bool)
    (a : α) :
    Retains (do
      if !closed then
        Parse.poison
      return a) := by
  cases closed <;> infer_instance

instance text :
    Retains (Parse.text expr) := by
  unfold Parse.text
  refine @bind _ _ _ _ _ fun _ => @bind _ _ _ _ _ fun a => ?_
  have hBody : ∀ kind heredoc span, Retains (do
      let i ← Parse.segmentsFor expr
        ((← Parse.rest).length + 1) span
      if !i.closed then
        Parse.poison
      let (indent, segments) := splitIndent heredoc i
      return ((⟨kind, heredoc, indent, segments⟩ : Text Node),
        i.span)) := by
    intro kind heredoc span
    refine @bind _ _ _ _ _ fun _ => @bind _ _ _ _ _ fun i => ?_
    exact poisonedUnless i.closed _
  rcases promoterText a with ⟨kind, _ | _⟩
  · exact @bind _ _ _ _ _ fun _ => hBody _ _ _
  · exact @bind _ _ _ _ _ fun _ =>
      @bind _ _ _ _ _ fun _ => hBody _ _ _

instance textNode :
    Retains (Parse.textNode expr) := by
  unfold Parse.textNode
  infer_instance

instance sigilModifiers
    (span : Span) :
    Retains (Parse.sigilModifiers span) := by
  unfold Parse.sigilModifiers
  refine @bind _ _ _ _ _ fun a => ?_
  cases a <;> infer_instance

instance sigilBody
    (tilde : Span)
    (name : String) :
    Retains (Parse.sigilBody expr tilde name) := by
  unfold Parse.sigilBody
  infer_instance

instance sigil :
    Retains (Parse.sigil expr) := by
  unfold Parse.sigil
  refine @bind _ _ _ _ _ fun _ => @bind _ _ _ _ _ fun _ =>
    @bind _ _ _ _ _ fun a => ?_
  cases a <;> infer_instance

instance characterValue
    (text : String)
    (span : Span) :
    Retains (Parse.characterValue text span) := by
  unfold Parse.characterValue
  split <;> infer_instance

instance character : Retains Parse.character := by
  unfold Parse.character
  refine @bind _ _ _ _ _ fun _ => @bind _ _ _ _ _ fun _ =>
    @bind _ _ _ _ _ fun a => ?_
  cases a <;> infer_instance

instance atom :
    Retains (Parse.atom expr) := by
  unfold Parse.atom
  refine @bind _ _ _ _ _ fun _ => @bind _ _ _ _ _ fun _ =>
    @bind _ _ _ _ _ fun a => ?_
  cases a <;> infer_instance

------------------------------------------------------------
-- Keyword pairs
------------------------------------------------------------

instance bareKey
    (l : Lexeme) :
    Retains (Parse.bareKey l) := by
  unfold Parse.bareKey
  refine @bind _ _ _ _ _ fun _ => @bind _ _ _ _ _ fun a => ?_
  cases a <;> infer_instance

instance quotedKey :
    Retains (Parse.quotedKey expr) := by
  unfold Parse.quotedKey
  refine @bind _ _ _ _ _ fun _ => @bind _ _ _ _ _ fun a => ?_
  cases a <;> infer_instance

instance keywordKey :
    Retains (Parse.keywordKey expr) := by
  unfold Parse.keywordKey
  refine @bind _ _ _ _ _ fun a => ?_
  cases a <;> infer_instance

variable {context : Context}

instance pairsFor
    (span : Span) :
    Retains (Parse.pairsFor expr context k span) := by
  induction k generalizing span with
  | zero =>
      unfold Parse.pairsFor
      infer_instance
  | succ k ih =>
      unfold Parse.pairsFor
      refine @bind _ _ _ _ _ fun a => ?_
      cases a with
      | none => infer_instance
      | some key =>
          refine @bind _ _ _ _ _ fun _ => @bind _ _ _ _ _ fun _ =>
            @bind _ _ _ _ _ fun ls => ?_
          cases pairSeparator? ls <;> infer_instance

instance keywords :
    Retains (Parse.keywords expr context) := by
  unfold Parse.keywords
  infer_instance

------------------------------------------------------------
-- Containers
------------------------------------------------------------

instance lastItem :
    Retains (Parse.lastItem expr) := by
  unfold Parse.lastItem
  infer_instance

instance itemsFor
    (closer : Kind) :
    Retains (Parse.itemsFor expr closer k) := by
  induction k with
  | zero =>
      unfold Parse.itemsFor
      infer_instance
  | succ k ih =>
      unfold Parse.itemsFor
      have hComma : ∀ item : Node, Retains (do
          match ← Parse.eat .comma with
          | none => return [item]
          | some _ =>
              return item :: (← Parse.itemsFor expr closer k)) := by
        intro item
        refine @bind _ _ _ _ _ fun a => ?_
        cases a <;> infer_instance
      infer_instance

instance items
    (closer : Kind) :
    Retains (Parse.items expr closer) := by
  unfold Parse.items
  infer_instance

instance enclosed
    (bracket : Bracket) :
    Retains (Parse.enclosed expr bracket) := by
  unfold Parse.enclosed
  infer_instance

instance container
    (bracket : Bracket)
    (form : List Node → Form Node) :
    Retains (Parse.container expr bracket form) := by
  unfold Parse.container
  infer_instance

instance parenthesized :
    Retains (Parse.parenthesized expr) := by
  unfold Parse.parenthesized
  infer_instance

instance entriesAfter
    (first : Node) :
    Retains (Parse.entriesAfter expr first) := by
  unfold Parse.entriesAfter
  refine @bind _ _ _ _ _ fun a => ?_
  cases a <;> infer_instance

instance entriesFrom :
    Retains (Parse.entriesFrom expr) := by
  unfold Parse.entriesFrom
  refine @bind _ _ _ _ _ fun _ => @bind _ _ _ _ _ fun _ =>
    @bind _ _ _ _ _ fun a => ?_
  cases a <;> infer_instance

instance entries :
    Retains (Parse.entries expr) := by
  unfold Parse.entries
  infer_instance

instance mapBody :
    Retains (Parse.mapBody expr) := by
  unfold Parse.mapBody
  infer_instance

instance structSegments
    (name : Node) :
    Retains (Parse.structSegments k name) := by
  induction k generalizing name with
  | zero =>
      unfold Parse.structSegments
      infer_instance
  | succ k ih =>
      unfold Parse.structSegments
      refine @bind _ _ _ _ _ fun ls => ?_
      split <;> infer_instance

instance structAttribute
    (mark : Lexeme) :
    Retains (Parse.structAttribute mark) := by
  unfold Parse.structAttribute
  refine @bind _ _ _ _ _ fun _ => @bind _ _ _ _ _ fun a => ?_
  cases a <;> infer_instance

instance structHead : Retains Parse.structHead := by
  unfold Parse.structHead
  refine @bind _ _ _ _ _ fun a => ?_
  cases a with
  | none => infer_instance
  | some l =>
      dsimp only
      split <;> infer_instance

instance structName : Retains Parse.structName := by
  unfold Parse.structName
  refine @bind _ _ _ _ _ fun a => ?_
  cases a <;> infer_instance

instance structOrMap :
    Retains (Parse.structOrMap expr) := by
  unfold Parse.structOrMap
  infer_instance

------------------------------------------------------------
-- Blocks
------------------------------------------------------------

instance finishHead
    (head : List Node)
    (guard : Option Node) :
    Retains (Parse.finishHead head guard) := by
  have hArrow : ∀ (head : List Node) (guard : Option Node),
      Retains (do
        match ← Parse.expect (.operator .stab) .arrow with
        | .ok arrow =>
            return (⟨head, guard, [], arrow.span⟩ : Clause Node)
        | .error e => return ⟨head ++ [e], guard, [], e.span⟩) := by
    intro head guard
    refine @bind _ _ _ _ _ fun a => ?_
    cases a <;> infer_instance
  unfold Parse.finishHead
  cases guard <;> exact hArrow _ _

instance headGuard :
    Retains (Parse.headGuard expr) := by
  unfold Parse.headGuard
  refine @bind _ _ _ _ _ fun a => ?_
  cases a <;> infer_instance

instance parenthesizedHead :
    Retains (Parse.parenthesizedHead expr) := by
  unfold Parse.parenthesizedHead
  infer_instance

instance headItemsFor :
    Retains (Parse.headItemsFor expr k) := by
  induction k with
  | zero =>
      unfold Parse.headItemsFor
      infer_instance
  | succ k ih =>
      unfold Parse.headItemsFor
      refine @bind _ _ _ _ _ fun a => ?_
      cases a <;> infer_instance

instance openClauseOrStatement :
    Retains (Parse.openClauseOrStatement expr) := by
  unfold Parse.openClauseOrStatement
  infer_instance

instance clauseOrStatement :
    Retains (Parse.clauseOrStatement expr) := by
  unfold Parse.clauseOrStatement
  refine @bind _ _ _ _ _ fun a => ?_
  cases a <;> infer_instance

instance checkFirstClause
    (expressions : List Node)
    (clauses : List (Clause Node))
    (c : Clause Node) :
    Retains (Parse.checkFirstClause expressions clauses c) := by
  unfold Parse.checkFirstClause
  infer_instance

instance bodyFor
    (expressions : List Node)
    (clauses : List (Clause Node)) :
    Retains (Parse.bodyFor expr stop k expressions clauses) := by
  induction k generalizing expressions clauses with
  | zero =>
      unfold Parse.bodyFor
      infer_instance
  | succ k ih =>
      unfold Parse.bodyFor
      have hItem : ∀ (start : List Lexeme) (i : Item), Retains (do
          match i with
          | .clause c => do
              let c ← Parse.checkFirstClause expressions clauses c
              Parse.recover stop start
              Parse.bodyFor expr stop k expressions (clauses ++ [c])
          | .expression node => do
              let node := withTrailing node
                (← Parse.finishStatement stop start)
              if clauses.isEmpty then
                Parse.bodyFor expr stop k (expressions ++ [node])
                  clauses
              else
                Parse.bodyFor expr stop k expressions
                  (Clause.pushLast node clauses)) := by
        intro start i
        cases i <;> infer_instance
      infer_instance

instance body :
    Retains (Parse.body expr stop) := by
  unfold Parse.body
  infer_instance

instance unendedSection
    (opened : Span)
    (name : String)
    (b : Body Node) :
    Retains (Parse.unendedSection opened name b) := by
  unfold Parse.unendedSection
  infer_instance

instance sectionsFor
    (opened : Span)
    (name : String) :
    Retains (Parse.sectionsFor expr opened k name) := by
  induction k generalizing name with
  | zero =>
      unfold Parse.sectionsFor
      infer_instance
  | succ k ih =>
      unfold Parse.sectionsFor
      refine @bind _ _ _ _ _ fun _ => @bind _ _ _ _ _ fun a => ?_
      cases a <;> infer_instance

instance doBlock :
    Retains (Parse.doBlock expr) := by
  unfold Parse.doBlock
  infer_instance

instance fn :
    Retains (Parse.fn expr) := by
  unfold Parse.fn
  refine @bind _ _ _ _ _ fun _ => @bind _ _ _ _ _ fun _ =>
    @bind _ _ _ _ _ fun b => @bind _ _ _ _ _ fun r => ?_
  dsimp only
  split <;> infer_instance

------------------------------------------------------------
-- Calls
------------------------------------------------------------

instance argumentsFor :
    Retains (Parse.argumentsFor expr context k) := by
  induction k with
  | zero =>
      unfold Parse.argumentsFor
      infer_instance
  | succ k ih =>
      unfold Parse.argumentsFor
      infer_instance

instance parenthesizedSuffix :
    Retains (Parse.parenthesizedSuffix expr) := by
  unfold Parse.parenthesizedSuffix
  infer_instance

instance openSuffix :
    Retains (Parse.openSuffix expr context) := by
  unfold Parse.openSuffix
  infer_instance

instance attachDo
    (suffix : Suffix) :
    Retains (Parse.attachDo expr context suffix) := by
  unfold Parse.attachDo
  infer_instance

instance callArguments :
    Retains (Parse.callArguments expr context) := by
  unfold Parse.callArguments
  infer_instance

instance callSuffix :
    Retains (Parse.callSuffix expr context) := by
  unfold Parse.callSuffix
  refine @bind _ _ _ _ _ fun a => ?_
  cases a <;> infer_instance

instance identifier
    (name : Lexeme) :
    Retains (Parse.identifier expr context name) := by
  unfold Parse.identifier
  refine @bind _ _ _ _ _ fun a => ?_
  cases a <;> infer_instance

instance remoteCall
    (receiver : Node)
    (name : String)
    (dot nameSpan : Span) :
    Retains (Parse.remoteCall expr context receiver name dot
      nameSpan) := by
  unfold Parse.remoteCall
  infer_instance

instance quotedRemote
    (receiver : Node)
    (dot : Span) :
    Retains (Parse.quotedRemote expr context receiver dot) := by
  unfold Parse.quotedRemote
  refine @bind _ _ _ _ _ fun a => ?_
  dsimp only
  split <;> infer_instance

instance enclosedCall
    (bracket : Bracket)
    (target : Target Node)
    (start : Span) :
    Retains (Parse.enclosedCall expr bracket target start) := by
  unfold Parse.enclosedCall
  infer_instance

instance afterDot
    (receiver : Node)
    (dot : Span)
    (l : Lexeme) :
    Retains (Parse.afterDot expr context receiver dot l) := by
  unfold Parse.afterDot
  split <;> infer_instance

instance dotted
    (receiver : Node) :
    Retains (Parse.dotted expr context receiver) := by
  unfold Parse.dotted
  refine @bind _ _ _ _ _ fun _ => @bind _ _ _ _ _ fun _ =>
    @bind _ _ _ _ _ fun a => ?_
  cases a <;> infer_instance

instance accessKey :
    Retains (Parse.accessKey expr) := by
  unfold Parse.accessKey
  infer_instance

instance closeAccess
    (opened : Span)
    (key : Node) :
    Retains (Parse.closeAccess opened key) := by
  unfold Parse.closeAccess
  refine @bind _ _ _ _ _ fun a => ?_
  cases a <;> infer_instance

instance access
    (subject : Node) :
    Retains (Parse.access expr subject) := by
  unfold Parse.access
  infer_instance

------------------------------------------------------------
-- Expressions
------------------------------------------------------------

instance single
    (form : Form Node)
    (l : Lexeme) :
    Retains (Parse.single form l) := by
  unfold Parse.single
  infer_instance

instance wordOperand
    (w : Word)
    (l : Lexeme) :
    Retains (Parse.wordOperand expr w l) := by
  unfold Parse.wordOperand
  split <;> infer_instance

instance bracketOperand
    (b : Bracket) :
    Retains (Parse.bracketOperand expr b) := by
  unfold Parse.bracketOperand
  split <;> infer_instance

instance promoterOperand :
    Retains (Parse.promoterOperand expr context) := by
  unfold Parse.promoterOperand
  infer_instance

instance strayOperand
    (l : Lexeme) :
    Retains (Parse.strayOperand l) := by
  unfold Parse.strayOperand
  infer_instance

instance primaryAt
    (l : Lexeme) :
    Retains (Parse.primaryAt expr context l) := by
  unfold Parse.primaryAt
  split <;> infer_instance

instance primary :
    Retains (Parse.primary expr context) := by
  unfold Parse.primary
  refine @bind _ _ _ _ _ fun a => ?_
  cases a <;> infer_instance

instance withSuffix
    (node : Node)
    (kind : SuffixKind) :
    Retains (Parse.withSuffix expr context node kind) := by
  unfold Parse.withSuffix
  split <;> infer_instance

instance tooDeep : Retains Parse.tooDeep := by
  unfold Parse.tooDeep
  infer_instance

instance unary
    (precedence : Nat)
    (operator : Lexeme) :
    Retains (Parse.unary expr precedence context operator) := by
  unfold Parse.unary
  infer_instance

instance capture
    (operator : Lexeme) :
    Retains (Parse.capture expr context operator) := by
  unfold Parse.capture
  infer_instance

instance fullRange
    (l : Lexeme) :
    Retains (Parse.fullRange l) := by
  unfold Parse.fullRange
  infer_instance

instance checkStep
    (operator : InfixOperator)
    (left right : Node) :
    Retains (Parse.checkStep operator left right) := by
  unfold Parse.checkStep
  infer_instance

instance joined
    (operator : InfixOperator)
    (left right : Node) :
    Retains (Parse.joined operator left right) := by
  unfold Parse.joined
  infer_instance

instance eatInfix
    (precedence : Nat) :
    Retains (Parse.eatInfix precedence) := by
  unfold Parse.eatInfix
  refine @bind _ _ _ _ _ fun ls => ?_
  cases infixAhead? ls <;> infer_instance

section Levels

variable {levels : Levels}
variable {height : Nat}
variable [∀ height precedence context,
  Retains (levels height precedence context)]

instance suffixes
    (node : Node) :
    Retains (Parse.suffixes levels context height node) := by
  induction height generalizing node with
  | zero =>
      unfold Parse.suffixes
      refine @bind _ _ _ _ _ fun ls => ?_
      cases suffixAhead? ls <;> infer_instance
  | succ height ih =>
      unfold Parse.suffixes
      refine @bind _ _ _ _ _ fun ls => ?_
      cases suffixAhead? ls <;> infer_instance

instance moduleAttribute
    (operator : Lexeme) :
    Retains (Parse.moduleAttribute levels height context
      operator) := by
  unfold Parse.moduleAttribute
  infer_instance

instance suffixed :
    Retains (Parse.suffixed levels height context) := by
  unfold Parse.suffixed
  infer_instance

instance operandAt
    (l : Lexeme) :
    Retains (Parse.operandAt levels height context l) := by
  unfold Parse.operandAt
  split <;> infer_instance

instance operand :
    Retains (Parse.operand levels height context) := by
  unfold Parse.operand
  refine @bind _ _ _ _ _ fun a => ?_
  cases a <;> infer_instance

instance folds
    (precedence : Nat)
    (left : Node) :
    Retains (Parse.folds levels precedence context height
      left) := by
  induction height generalizing left with
  | zero =>
      unfold Parse.folds
      refine @bind _ _ _ _ _ fun a => ?_
      cases a <;> infer_instance
  | succ height ih =>
      unfold Parse.folds
      refine @bind _ _ _ _ _ fun a => ?_
      cases a <;> infer_instance

instance expressionOver
    (precedence : Nat) :
    Retains (Parse.expressionOver levels height precedence
      context) := by
  cases height with
  | zero => exact tooDeep
  | succ height =>
      unfold Parse.expressionOver
      infer_instance

end Levels

end Retains

/- Expressions take nothing back at any depth of nesting. -/
instance retains_expression
    (n height precedence : Nat)
    (context : Context) :
    Retains (expression n height precedence context) := by
  induction n generalizing height precedence context with
  | zero => exact Retains.tooDeep
  | succ n ih => exact Retains.expressionOver precedence

end ElixirReader
