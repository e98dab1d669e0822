import ElixirReader.Proofs.Errors.Calls
import ElixirReader.Proofs.Parser.Expressions

/-
  This file shows that the parser for expressions hides no
  error and makes none up, at every depth of nesting.

  Main declarations:
    * `Reads.primary`
    * `Reads.suffixes`
    * `Reads.operand`
    * `Reads.folds`
    * `candid_expression`
-/

namespace ElixirReader

open Parse

variable {α β : Type}
variable {n : Nat}
variable {l : Lexeme}
variable {ls : List Lexeme}
variable {s : ParseState}
variable {ds es : Nest}
variable {seen : List Node}
variable {view : α → List Node}
variable {expr : ExpressionParser}
variable {context : Context}

------------------------------------------------------------
-- Stray lexemes
------------------------------------------------------------

theorem unexpected_apply
    (s : ParseState) :
    ∃ fault, unexpected s = (fault, s) := by
  cases hRest : s.rest with
  | nil =>
      refine ⟨.unexpectedEnd, ?_⟩
      rw [unexpected, Parse.bind_apply, peek_of_nil hRest]
      rfl
  | cons l ls =>
      refine ⟨.unexpectedToken l.describe, ?_⟩
      rw [unexpected, Parse.bind_apply, peek_of_cons hRest]
      rfl

namespace Reads

theorem bind_unexpected
    {f : ParseFault → Parse α}
    (hReads : ∀ fault, Reads ds es seen view (f fault) s) :
    Reads ds es seen view (unexpected >>= f) s := by
  rcases unexpected_apply s with ⟨fault, hEq⟩
  apply (hReads fault).of_eq
  rw [Parse.bind_apply, hEq]

/- What cannot stand here is taken, and an error given for it. -/
theorem stray
    (fault : ParseFault) :
    Reads ds es seen nodeOf
      (do
        let node ← Parse.errorNode fault
        Parse.skip 1
        return node) s := by
  have hError : Reads ds es seen nodeOf (Parse.errorNode fault)
    s := errorNode fault
  apply of_fails
  · exact (suffix_advance 1 _).trans hError.rest
  · exact hError.errors
  · exact (hasError_nodeOf _).mpr (containsError_failure _ _)
  · exact errors_report_ne fault s.currentSpan

theorem strayOperand
    (l : Lexeme) :
    Reads ds es seen nodeOf (Parse.strayOperand l) s := by
  apply bind_unexpected
  intro fault
  cases l.kind.isBoundary with
  | true =>
      apply (errorNode fault).of_eq
      rfl
  | false => exact stray fault

------------------------------------------------------------
-- Primary expressions
------------------------------------------------------------

theorem single
    {form : Form Node}
    (hRest : s.rest = l :: ls)
    (hFlat : l.kind.isFlat = true)
    (hComplete : l.kind.isComplete = true)
    (hNodes : form.nodes = [])
    (hForm : Node.isError ⟨form, l.span⟩ = false) :
    Reads [] [] [] nodeOf (Parse.single form l) s := by
  apply bind_skip_flat hRest hFlat
    (.inl (Lexeme.isUnfinished_of_isComplete hComplete))
  intro s' _
  apply pure
  rw [hasError_nodeOf, containsError_mk _ hForm, hNodes]

theorem wordOperand
    {w : Word}
    (hExpr : Candid n expr)
    (hRest : s.rest = l :: ls)
    (hKind : l.kind = .word w) :
    Reads [] [] [] nodeOf (Parse.wordOperand expr w l) s := by
  have hError :
      Reads [] [] [] nodeOf
        (do Parse.errorNode (← Parse.unexpected)) s :=
    bind_unexpected fun fault => errorNode fault
  cases w with
  | «true» =>
      exact single hRest (by rw [hKind]; rfl) (by rw [hKind]; rfl)
        rfl rfl
  | «false» =>
      exact single hRest (by rw [hKind]; rfl) (by rw [hKind]; rfl)
        rfl rfl
  | nil =>
      exact single hRest (by rw [hKind]; rfl) (by rw [hKind]; rfl)
        rfl rfl
  | fn => exact fn hExpr hRest hKind
  | _ => exact hError

theorem bracketOperand
    {b : Bracket}
    (hExpr : Candid n expr)
    (hRest : s.rest = l :: ls)
    (hKind : l.kind = .opening b) :
    Reads [] [] [] nodeOf (Parse.bracketOperand expr b) s := by
  cases b with
  | parenthesis => exact parenthesized hExpr hRest hKind
  | square =>
      exact container hExpr hRest hKind fun _ _ => ⟨rfl, rfl⟩
  | curly =>
      exact container hExpr hRest hKind fun _ _ => ⟨rfl, rfl⟩
  | bits =>
      exact container hExpr hRest hKind fun _ _ => ⟨rfl, rfl⟩

theorem textNode
    {f : Family}
    {layout : Layout}
    (hExpr : Candid n expr)
    (hRest : s.rest = l :: ls)
    (hKind : l.kind = .promoter f layout) :
    Reads [] [] [] nodeOf (Parse.textNode expr) s := by
  apply (text hExpr hRest hKind).bind
  rintro ⟨t, span⟩ s' _
  apply pure
  rw [hasError_nodeOf, containsError_mk _ rfl]
  rfl

theorem promoterOperand
    {f : Family}
    {layout : Layout}
    (hExpr : Candid n expr)
    (hRest : s.rest = l :: ls)
    (hKind : l.kind = .promoter f layout) :
    Reads [] [] [] nodeOf (Parse.promoterOperand expr context)
      s := by
  apply bind_rest
  split
  · rename_i hAhead
    exact keywords hExpr hAhead
  · exact textNode hExpr hRest hKind

/- The lexer has reported the character already. -/
theorem badCharacter
    (hRest : s.rest = l :: ls)
    (hKind : l.kind = .badCharacter) :
    Reads ds es seen nodeOf
      (do
        Parse.skip 1
        Parse.lexicalErrorNode l) s := by
  apply poisoned (containsError_failure _ _)
  refine ⟨l, ?_, ?_⟩
  · rw [(ParseState.take_one hRest).1]
    exact List.mem_singleton_self l
  · rw [hKind]
    rfl

theorem primaryAt
    (hExpr : Candid n expr)
    (hRest : s.rest = l :: ls) :
    Reads [] [] [] nodeOf (Parse.primaryAt expr context l)
      s := by
  unfold Parse.primaryAt
  split
  · rename_i hKind
    exact badCharacter hRest hKind
  · rename_i hKind
    exact wordOperand hExpr hRest hKind
  · rename_i hKind
    exact single hRest (by rw [hKind]; rfl) (by rw [hKind]; rfl)
      rfl rfl
  · rename_i hKind
    apply bind_skip_flat hRest (by rw [hKind]; rfl)
      (.inl (Lexeme.isUnfinished_of_isComplete
        (by rw [hKind]; rfl)))
    intro s' _
    exact identifier hExpr l
  · rename_i hKind
    exact character hRest hKind
  · rename_i hKind
    exact atom hExpr hRest hKind
  · rename_i hKind
    apply keywords hExpr
    rw [hRest]
    simp [ElixirReader.keywordAhead, hKind]
  · rename_i hKind
    exact promoterOperand hExpr hRest hKind
  · rename_i hKind
    exact promoterOperand hExpr hRest hKind
  · rename_i hKind
    exact sigil hExpr hRest hKind
  · rename_i hKind
    exact bracketOperand hExpr hRest hKind
  · rename_i hKind
    exact structOrMap hExpr hRest hKind
  · split
    · exact number
    · exact strayOperand l

theorem primary
    (hExpr : Candid n expr) :
    Reads [] [] [] nodeOf (Parse.primary expr context) s := by
  apply bind_peek
  cases hRest : s.rest with
  | nil => exact errorNode _
  | cons l ls => exact primaryAt hExpr hRest

------------------------------------------------------------
-- Suffixes
------------------------------------------------------------

theorem withSuffix
    {kind : SuffixKind}
    (hExpr : Candid n expr)
    (hAhead : suffixAhead? s.rest = some kind)
    (node : Node) :
    Reads [] [] [node] nodeOf
      (Parse.withSuffix expr context node kind) s := by
  cases hRest : s.rest with
  | nil =>
      rw [hRest] at hAhead
      cases hAhead
  | cons l ls =>
      rw [hRest] at hAhead
      simp only [suffixAhead?] at hAhead
      split at hAhead
      · rename_i hKind
        cases hAhead
        exact dotted hExpr hRest hKind node
      · split at hAhead
        · rename_i hKey
          cases hAhead
          exact access hExpr hRest hKey.1 node
        · cases hAhead

section Levels

variable {levels : Levels}
variable {height : Nat}

theorem suffixes
    (hLevels : ∀ height, Candid n (levels height))
    (node : Node) :
    Reads [] [] [node] nodeOf
      (Parse.suffixes levels context height node) s := by
  induction height generalizing s node with
  | zero =>
      apply bind_rest
      cases suffixAhead? s.rest with
      | none => exact pure (by simp)
      | some kind => exact errorNode _
  | succ height ih =>
      apply bind_rest
      cases hAhead : suffixAhead? s.rest with
      | none => exact pure (by simp)
      | some kind =>
          apply (withSuffix (hLevels height) hAhead node).bind_seen
          intro larger s' _
          exact ih larger

------------------------------------------------------------
-- Operands
------------------------------------------------------------

theorem unary
    (hExpr : Candid n expr)
    (precedence : Nat)
    (hRest : s.rest = l :: ls)
    (hFlat : l.kind.isFlat = true)
    (hComplete : l.kind.isComplete = true) :
    Reads [] [] [] nodeOf
      (Parse.unary expr precedence context l) s := by
  apply bind_skip_flat hRest hFlat
    (.inl (Lexeme.isUnfinished_of_isComplete hComplete))
  intro s₁ _
  have hSkip : Reads [] [] [] noNodes Parse.skipLineEnds s₁ :=
    skipLineEnds
  apply hSkip.bind_silent
  intro _ s₂ _
  apply (hExpr.reads precedence context s₂).bind
  intro operand s₃ _
  apply pure
  rw [hasError_nodeOf, containsError_mk _ rfl]
  rfl

theorem capture
    (hExpr : Candid n expr)
    (hRest : s.rest = l :: ls)
    (hKind : l.kind = .operator .capture) :
    Reads [] [] [] nodeOf (Parse.capture expr context l) s := by
  apply bind_rest
  split
  · apply bind_skip_flat hRest (by rw [hKind]; rfl)
      (.inl (Lexeme.isUnfinished_of_isComplete
        (by rw [hKind]; rfl)))
    intro s' _
    apply number.bind
    intro index s'' _
    apply pure
    rw [hasError_nodeOf, containsError_mk _ rfl]
    rfl
  · exact unary hExpr _ hRest (by rw [hKind]; rfl)
      (by rw [hKind]; rfl)

theorem moduleAttribute
    (hLevels : ∀ height, Candid n (levels height))
    (hRest : s.rest = l :: ls)
    (hKind : l.kind = .operator .atSign) :
    Reads [] [] [] nodeOf
      (Parse.moduleAttribute levels height context l) s := by
  apply bind_skip_flat hRest (by rw [hKind]; rfl)
    (.inl (Lexeme.isUnfinished_of_isComplete (by rw [hKind]; rfl)))
  intro s₁ _
  have hOperand : Reads [] [] [] nodeOf
      (Parse.primary (levels height) context) s₁ :=
    primary (hLevels height)
  apply hOperand.bind
  intro operand s₂ _
  apply (suffixes hLevels _).congr_seen
  rw [hasError_cons, containsError_mk _ rfl]
  simp [Form.nodes]

theorem fullRange
    (hRest : s.rest = l :: ls)
    (hKind : l.kind = .operator .range) :
    Reads [] [] [] nodeOf (Parse.fullRange l) s := by
  apply bind_skip_flat hRest (by rw [hKind]; rfl)
    (.inl (Lexeme.isUnfinished_of_isComplete (by rw [hKind]; rfl)))
  intro s' _
  apply pure
  rw [hasError_nodeOf, containsError_call]
  rfl

theorem suffixed
    (hLevels : ∀ height, Candid n (levels height)) :
    Reads [] [] [] nodeOf
      (Parse.suffixed levels height context) s := by
  have hPrimary : Reads [] [] [] nodeOf
      (Parse.primary (levels height) context) s :=
    primary (hLevels height)
  apply hPrimary.bind_seen
  intro node s' _
  exact suffixes hLevels node

theorem operandAt
    (hLevels : ∀ height, Candid n (levels height))
    (hRest : s.rest = l :: ls) :
    Reads [] [] [] nodeOf
      (Parse.operandAt levels height context l) s := by
  have hUnary :
      l.kind.isFlat = true → l.kind.isComplete = true →
        Reads [] [] [] nodeOf
          (Parse.unary (levels height) Precedence.unary context l)
          s :=
    unary (hLevels height) _ hRest
  unfold Parse.operandAt
  split
  · rename_i hKind
    exact hUnary (by rw [hKind]; rfl) (by rw [hKind]; rfl)
  · rename_i hKind
    exact hUnary (by rw [hKind]; rfl) (by rw [hKind]; rfl)
  · rename_i hKind
    exact hUnary (by rw [hKind]; rfl) (by rw [hKind]; rfl)
  · rename_i hKind
    exact hUnary (by rw [hKind]; rfl) (by rw [hKind]; rfl)
  · rename_i hKind
    exact capture (hLevels height) hRest hKind
  · rename_i hKind
    exact fullRange hRest hKind
  · rename_i hKind
    exact moduleAttribute hLevels hRest hKind
  · exact suffixed hLevels

theorem operand
    (hLevels : ∀ height, Candid n (levels height)) :
    Reads [] [] [] nodeOf
      (Parse.operand levels height context) s := by
  apply bind_peek
  cases hRest : s.rest with
  | nil => exact errorNode _
  | cons l ls => exact operandAt hLevels hRest

------------------------------------------------------------
-- Operators between operands
------------------------------------------------------------

/- An error takes the place of a step without a range. -/
theorem checkStep
    (operator : InfixOperator)
    (left right : Node) :
    Reads [] [] [right] nodeOf
      (Parse.checkStep operator left right) s := by
  unfold Parse.checkStep
  split
  · exact failure _ _ _
  · exact pure (by simp)

theorem joined
    (operator : InfixOperator)
    (left right : Node) :
    Reads [] [] [left, right] nodeOf
      (Parse.joined operator left right) s := by
  apply ((checkStep operator left right).carry [left]).bind_seen
  intro right' s' _
  apply pure
  rw [hasError_nodeOf, containsError_mk _ rfl]
  rfl

theorem eatInfix
    (precedence : Nat) :
    Reads [] [] [] noNodes (Parse.eatInfix precedence) s := by
  apply bind_rest
  cases hAhead : infixAhead? s.rest with
  | none => exact pure (by simp)
  | some i =>
      simp only
      split
      · exact pure (by simp)
      · have hSkip : Reads [] [] [] noNodes
            (Parse.skip i.length) s := by
          apply skip
          intro l hMem
          have hInfix := (take_of_infixAhead? hAhead).1 l hMem
          refine ⟨Kind.isFlat_of_isPlain
            (Kind.isPlain_of_isOfInfix hInfix), ?_⟩
          cases hKind : l.kind <;> rw [hKind] at hInfix <;>
            first | rfl | cases hInfix
        apply hSkip.bind_silent
        intro _ s₁ _
        have hLineEnds : Reads [] [] [] noNodes
          Parse.skipLineEnds s₁ := skipLineEnds
        apply hLineEnds.bind_silent
        intro _ s₂ _
        exact pure (by simp)

theorem folds
    (hLevels : ∀ height, Candid n (levels height))
    (precedence : Nat)
    (left : Node) :
    Reads [] [] [left] nodeOf
      (Parse.folds levels precedence context height left) s := by
  induction height generalizing s left with
  | zero =>
      apply (eatInfix precedence).bind_silent
      rintro (_ | i) s₁ _
      · exact pure (by simp)
      · have hDeep : Reads [] [] [] nodeOf Parse.tooDeep s₁ :=
          errorNode _
        apply hDeep.bind
        intro right s₂ _
        exact joined i left right
  | succ height ih =>
      apply (eatInfix precedence).bind_silent
      rintro (_ | i) s₁ _
      · exact pure (by simp)
      · apply ((hLevels height).reads _ context s₁).bind
        intro right s₂ _
        apply (joined i left right).bind_seen
        intro larger s₃ _
        exact ih larger

------------------------------------------------------------
-- Nested expressions
------------------------------------------------------------

/- Counting what is being parsed changes nothing that matters. -/
theorem nested
    {p : Parse α}
    (hReads : Reads ds es seen view p s.enter) :
    Reads ds es seen view (Parse.nested p) s := by
  refine ⟨hReads.rest, hReads.errors, hReads.shows, ?_⟩
  intro trailing fs hCode hCalm hErrors
  have hEnter : Calm trailing (ds.framed ++ fs) s.enter :=
    hCalm.congr rfl hCalm.poisoned
  rcases hReads.calm hCode hEnter hErrors with
    ⟨hCalm', hTaken, hNone⟩
  exact ⟨hCalm'.congr rfl hCalm'.poisoned, hTaken, hNone⟩

theorem expressionOver
    (hLevels : ∀ height, Candid n (levels height))
    (precedence : Nat) :
    Reads [] [] [] nodeOf
      (Parse.expressionOver levels height precedence context)
      s := by
  cases height with
  | zero => exact errorNode _
  | succ height =>
      apply nested
      apply (operand hLevels).bind_seen
      intro left s' _
      exact folds hLevels precedence left

end Levels

end Reads

/- At any depth errors are shown, and only those that are noted. -/
theorem candid_expression
    (n height : Nat) :
    Candid n (expression n height) := by
  induction n generalizing height with
  | zero =>
      refine ⟨sound_expression 0 height, ?_⟩
      intro precedence context s
      exact Reads.errorNode _
  | succ n ih =>
      refine ⟨sound_expression (n + 1) height, ?_⟩
      intro precedence context s
      exact Reads.expressionOver ih precedence

end ElixirReader
