import ElixirReader.Proofs.Diagnosis.Calls
import ElixirReader.Proofs.Errors.Expressions

/-
  This file follows fair errors through expressions. Where an
  operand is awaited, a character without a place makes an
  error node and is not blamed again.

  Key definitions include:
    * `joins`

  Main declarations:
    * `Watches.primary`
    * `Watches.suffixes`
    * `Watches.operand`
    * `Watches.folds`
    * `careful_expression`
-/

namespace ElixirReader

open Parse

variable {all ls ms : List Lexeme}
variable {l : Lexeme}
variable {s : ParseState}
variable {expr : ExpressionParser}
variable {context : Context}

------------------------------------------------------------
-- Infix operators
------------------------------------------------------------

theorem Kind.isApart_of_isOfInfix
    {k : Kind}
    (hInfix : k.isOfInfix = true) :
    k.isApart = true := by
  cases k <;> first | rfl | cases hInfix

/- An operator that is seen covers a lexeme in order. -/
theorem covers_of_infixAhead?
    {i : InfixOperator}
    (hAhead : infixAhead? ls = some i) :
    0 < i.length ∧ Covers ls i.span := by
  obtain ⟨hLength, l, hTaken, hSpan⟩ := span_cases_of_infixAhead? hAhead
  have hKind := (take_of_infixAhead? hAhead).1 l hTaken
  refine ⟨hLength, l, List.mem_of_mem_take hTaken,
    Kind.isFaulty_of_isApart (Kind.isApart_of_isOfInfix hKind), ?_⟩
  rcases hSpan with hSpan | ⟨m, _, hSpan⟩
  · rw [hSpan]
    exact ⟨Nat.le_refl _, Nat.le_refl _⟩
  · rw [hSpan, Span.start_merge, Span.stop_merge]
    omega

/- An operator that was taken, and what may follow it. -/
theorem behind_infix
    {i : InfixOperator}
    (hWatched : Watched all s)
    (hAhead : infixAhead? s.rest = some i) :
    Ready all (s.advance i.length).rest ∧ Covers all i.span := by
  rcases take_of_infixAhead? hAhead with ⟨hTaken, hLe⟩
  rcases covers_of_infixAhead? hAhead with
    ⟨hLength, m, hMem, hKind, hInside⟩
  refine ⟨?_, m, hWatched.rest.mem hMem, hKind, hInside⟩
  have hSplit := List.take_append_drop i.length s.rest
  cases hLast : (s.rest.take i.length).getLast? with
  | none =>
      have hNone := congrArg List.length
        (List.getLast?_eq_none_iff.mp hLast)
      rw [List.length_take, List.length_nil] at hNone
      omega
  | some p =>
      rcases List.getLast?_eq_some_iff.mp hLast with
        ⟨front, hFront⟩
      rw [hFront, List.append_assoc] at hSplit
      have hBehind : Behind all p (s.advance i.length).rest :=
        @Watched.behind_advance all p s _ front hWatched
          hSplit.symm
      exact hBehind.ready (Kind.isApart_of_isOfInfix
        (hTaken p (List.mem_of_getLast? hLast)))

/- Behind an operator an operand is awaited. -/
def joins
    (all : List Lexeme) :
    Option InfixOperator → ParseState → Prop
| none, s' => Live s' → Settled all s'.rest
| some i, s' => Covers all i.span ∧ (Live s' → Ready all s'.rest)

namespace Watches

------------------------------------------------------------
-- Primary expressions
------------------------------------------------------------

theorem single
    {form : Form Node}
    (hRest : s.rest = l :: ms)
    (hSettles : l.kind.settles = true) :
    Watches all (reaches (Settled all)) (Parse.single form l)
      s := by
  apply bind_skip_one hRest
  intro s₁ _ hBehind
  exact pure fun _ => hBehind.settled hSettles

/- What is unexpected here is a lexeme in order. -/
theorem unexpectedNode
    (hRest : s.rest = l :: ms)
    (hKind : l.kind.isFaulty = false) :
    Watches all noted
      (do Parse.errorNode (← Parse.unexpected)) s := by
  rcases unexpected_apply s with ⟨fault, hEq⟩
  apply (errorNode_of_isFaulty fault hRest hKind).of_eq
  rw [Parse.bind_apply, hEq]

theorem wordOperand
    {w : Word}
    (hExpr : Careful all expr)
    (hRest : s.rest = l :: ms)
    (hKind : l.kind = .word w) :
    Watches all (reaches (Settled all))
      (Parse.wordOperand expr w l) s := by
  have hApart : l.kind.isApart = true := by
    rw [hKind]
    rfl
  cases w with
  | «true» => exact single hRest (by rw [hKind]; rfl)
  | «false» => exact single hRest (by rw [hKind]; rfl)
  | nil => exact single hRest (by rw [hKind]; rfl)
  | fn => exact fn hExpr hRest hApart
  | _ =>
      exact reaches_of_noted (unexpectedNode hRest
        (Kind.isFaulty_of_isApart hApart))

theorem bracketOperand
    {b : Bracket}
    (hExpr : Careful all expr)
    (hRest : s.rest = l :: ms)
    (hApart : l.kind.isApart = true) :
    Watches all (reaches (Settled all))
      (Parse.bracketOperand expr b) s := by
  cases b with
  | parenthesis => exact parenthesized hExpr hRest hApart
  | square => exact container hExpr hRest hApart .square
  | curly => exact container hExpr hRest hApart .curly
  | bits => exact container hExpr hRest hApart .bits

theorem promoterOperand
    (hExpr : Careful all expr)
    (hRest : s.rest = l :: ms)
    (hApart : l.kind.isApart = true) :
    Watches all (reaches (Settled all))
      (Parse.promoterOperand expr context) s := by
  apply bind_rest
  split
  · rename_i hAhead
    exact keywords hExpr hAhead
  · apply (text hExpr hRest hApart).bind
    rintro ⟨t, span⟩ s₁ ⟨_, hText⟩
    exact pure hText

theorem strayOperand
    (hRest : s.rest = l :: ms)
    (hKind : l.kind.isFaulty = false) :
    Watches all noted (Parse.strayOperand l) s := by
  rcases unexpected_apply s with ⟨fault, hEq⟩
  have hStray : Watches all noted
      (do
        let node ← Parse.errorNode fault
        if !l.kind.isBoundary then
          Parse.skip 1
        return node) s := by
    apply (errorNode_of_isFaulty fault hRest hKind).bind
    intro node s₁ hNoted
    split
    · exact bind_skip 1 (pure hNoted)
    · exact pure hNoted
  apply hStray.of_eq
  rw [Parse.strayOperand, Parse.bind_apply, hEq]

/- A character without a place is left to its first error. -/
theorem primaryAt
    (hExpr : Careful all expr)
    (hRest : s.rest = l :: ms) :
    Watches all (reaches (Settled all))
      (Parse.primaryAt expr context l) s := by
  unfold Parse.primaryAt
  split
  · apply bind_skip 1
    exact reaches_of_noted (poison.bind fun _ _ => pure)
  · rename_i hKind
    exact wordOperand hExpr hRest hKind
  · rename_i hKind
    exact single hRest (by rw [hKind]; rfl)
  · rename_i hKind
    apply bind_skip_one hRest
    intro s₁ _ hBehind
    apply identifier hExpr l
    intro _
    apply hBehind.settled
    rw [hKind]
    rfl
  · rename_i hKind
    exact character hRest (by rw [hKind]; rfl)
  · rename_i hKind
    exact atom hExpr hRest (by rw [hKind]; rfl)
  · rename_i hKind
    apply keywords hExpr
    rw [hRest]
    simp [keywordAhead, hKind]
  · rename_i hKind
    exact promoterOperand hExpr hRest (by rw [hKind]; rfl)
  · rename_i hKind
    exact promoterOperand hExpr hRest (by rw [hKind]; rfl)
  · rename_i hKind
    exact sigil hExpr hRest (by rw [hKind]; rfl)
  · rename_i hKind
    exact bracketOperand hExpr hRest (by rw [hKind]; rfl)
  · rename_i hKind
    exact structOrMap hExpr hRest (by rw [hKind]; rfl)
  · rename_i hOther _ _ _ _ _ _ _ _ _ _ _
    split
    · rename_i hPart
      exact number hRest hPart
    · rename_i hPart
      apply reaches_of_noted
      apply strayOperand hRest
      generalize l.kind = kind at hOther hPart
      cases kind <;>
        first | rfl | exact absurd rfl hOther | exact absurd rfl hPart

theorem primary
    (hExpr : Careful all expr)
    (hReady : Live s → Ready all s.rest) :
    Watches all (reaches (Settled all))
      (Parse.primary expr context) s := by
  apply bind_peek
  cases hRest : s.rest with
  | nil => exact reaches_of_noted (errorNode_of_nil _ hReady hRest)
  | cons l ms => exact primaryAt hExpr hRest

------------------------------------------------------------
-- Suffixes
------------------------------------------------------------

theorem withSuffix
    {node : Node}
    {kind : SuffixKind}
    (hExpr : Careful all expr)
    (hAhead : suffixAhead? s.rest = some kind) :
    Watches all (reaches (Settled all))
      (Parse.withSuffix expr context node kind) s := by
  cases hRest : s.rest with
  | nil =>
      rw [hRest] at hAhead
      cases hAhead
  | cons l ms =>
      rw [hRest] at hAhead
      simp only [suffixAhead?] at hAhead
      split at hAhead
      · rename_i hDot
        cases hAhead
        exact dotted hExpr hRest (by rw [hDot]; rfl)
      · split at hAhead
        · rename_i hKey
          cases hAhead
          exact access hExpr hRest (by rw [hKey.1]; rfl)
        · cases hAhead

section Levels

variable {levels : Levels}
variable {height : Nat}

theorem suffixes
    (hLevels : ∀ height, Careful all (levels height))
    (node : Node)
    (hSettled : Live s → Settled all s.rest) :
    Watches all (reaches (Settled all))
      (Parse.suffixes levels context height node) s := by
  induction height generalizing s node with
  | zero =>
      apply bind_rest
      cases suffixAhead? s.rest with
      | none => exact pure hSettled
      | some kind =>
          exact reaches_of_noted (errorNode_tooDeep
            fun hLive => (hSettled hLive).toReady)
  | succ height ih =>
      apply bind_rest
      cases hAhead : suffixAhead? s.rest with
      | none => exact pure hSettled
      | some kind =>
          apply (withSuffix (hLevels height) hAhead).bind
          intro larger s₁ hSettled₁
          exact ih larger hSettled₁

------------------------------------------------------------
-- Operands
------------------------------------------------------------

theorem unary
    (hExpr : Careful all expr)
    (hRest : s.rest = l :: ms)
    (hApart : l.kind.isApart = true)
    (precedence : Nat) :
    Watches all (reaches (Settled all))
      (Parse.unary expr precedence context l) s := by
  apply bind_skip_one hRest
  intro s₁ _ hBehind
  apply (skipLineEnds_ready fun _ => hBehind.ready hApart).bind
  intro _ s₂ hReady
  apply (hExpr precedence context s₂ hReady).bind
  intro operand s₃ hEnd
  exact pure hEnd

theorem capture
    (hExpr : Careful all expr)
    (hRest : s.rest = l :: ms)
    (hApart : l.kind.isApart = true) :
    Watches all (reaches (Settled all))
      (Parse.capture expr context l) s := by
  apply bind_rest
  split
  · rename_i hIndex
    apply bind_skip_one hRest
    intro s₁ hRest₁ _
    rw [hRest, List.tail_cons] at hIndex
    cases ms with
    | nil => cases hIndex
    | cons m ns =>
        simp only [captureArgumentAhead, Bool.and_eq_true]
          at hIndex
        have hPart : m.kind.isNumberPart = true := by
          rw [eq_of_beq hIndex.1]
          rfl
        apply (number hRest₁ hPart).bind
        intro index s₂ hEnd
        exact pure hEnd
  · exact unary hExpr hRest hApart _

theorem moduleAttribute
    (hLevels : ∀ height, Careful all (levels height))
    (hRest : s.rest = l :: ms)
    (hApart : l.kind.isApart = true) :
    Watches all (reaches (Settled all))
      (Parse.moduleAttribute levels height context l) s := by
  apply bind_skip_one hRest
  intro s₁ _ hBehind
  apply (primary (hLevels height)
    fun _ => hBehind.ready hApart).bind
  intro operand s₂ hSettled
  exact suffixes hLevels _ hSettled

theorem suffixed
    (hLevels : ∀ height, Careful all (levels height))
    (hReady : Live s → Ready all s.rest) :
    Watches all (reaches (Settled all))
      (Parse.suffixed levels height context) s := by
  apply (primary (hLevels height) hReady).bind
  intro node s₁ hSettled
  exact suffixes hLevels node hSettled

theorem operandAt
    (hLevels : ∀ height, Careful all (levels height))
    (hRest : s.rest = l :: ms)
    (hReady : Live s → Ready all s.rest) :
    Watches all (reaches (Settled all))
      (Parse.operandAt levels height context l) s := by
  have hApart : ∀ o, l.kind = .operator o →
      l.kind.isApart = true := by
    intro o hKind
    rw [hKind]
    rfl
  unfold Parse.operandAt
  split
  · rename_i hKind
    exact unary (hLevels height) hRest (hApart _ hKind) _
  · rename_i hKind
    exact unary (hLevels height) hRest (hApart _ hKind) _
  · rename_i hKind
    exact unary (hLevels height) hRest (hApart _ hKind) _
  · rename_i hKind
    exact unary (hLevels height) hRest (hApart _ hKind) _
  · rename_i hKind
    exact capture (hLevels height) hRest (hApart _ hKind)
  · rename_i hKind
    apply bind_skip_one hRest
    intro s₁ _ hBehind
    apply pure
    intro _
    apply hBehind.settled
    rw [hKind]
    rfl
  · rename_i hKind
    exact moduleAttribute hLevels hRest (hApart _ hKind)
  · exact suffixed hLevels hReady

theorem operand
    (hLevels : ∀ height, Careful all (levels height))
    (hReady : Live s → Ready all s.rest) :
    Watches all (reaches (Settled all))
      (Parse.operand levels height context) s := by
  apply bind_peek
  cases hRest : s.rest with
  | nil => exact reaches_of_noted (errorNode_of_nil _ hReady hRest)
  | cons l ms => exact operandAt hLevels hRest hReady

------------------------------------------------------------
-- Operators between operands
------------------------------------------------------------

theorem joined
    {operator : InfixOperator}
    (left right : Node)
    (hOperator : Covers all operator.span)
    (hSettled : Live s → Settled all s.rest) :
    Watches all (reaches (Settled all))
      (Parse.joined operator left right) s := by
  have hChecked : Watches all (reaches (Settled all))
      (Parse.checkStep operator left right) s := by
    unfold Parse.checkStep
    split
    · exact reaches_of_noted (failure_of_covers _ _ hOperator)
    · exact pure hSettled
  apply hChecked.bind
  intro right' s₁ hEnd
  exact pure hEnd

theorem eatInfix
    (precedence : Nat)
    (hSettled : Live s → Settled all s.rest) :
    Watches all (joins all) (Parse.eatInfix precedence) s := by
  apply of_watched
  intro hWatched
  apply bind_rest
  cases hAhead : infixAhead? s.rest with
  | none => exact pure hSettled
  | some i =>
      rcases behind_infix hWatched hAhead with
        ⟨hReady, hOperator⟩
      dsimp only
      split
      · exact pure hSettled
      · apply bind_skip i.length
        apply (skipLineEnds_ready fun _ => hReady).bind
        intro _ s₁ hReady₁
        exact pure ⟨hOperator, hReady₁⟩

theorem folds
    (hLevels : ∀ height, Careful all (levels height))
    (precedence : Nat)
    (left : Node)
    (hSettled : Live s → Settled all s.rest) :
    Watches all (reaches (Settled all))
      (Parse.folds levels precedence context height left) s := by
  induction height generalizing s left with
  | zero =>
      apply (eatInfix precedence hSettled).bind
      rintro (_ | i) s₁ hInfix
      · exact pure hInfix
      · rcases hInfix with ⟨hOperator, hReady⟩
        apply (errorNode_tooDeep hReady).bind
        intro right s₂ hNoted
        exact joined left right hOperator fun hLive =>
          absurd hLive (not_live_of_poisoned hNoted)
  | succ height ih =>
      apply (eatInfix precedence hSettled).bind
      rintro (_ | i) s₁ hInfix
      · exact pure hInfix
      · rcases hInfix with ⟨hOperator, hReady⟩
        apply (hLevels height _ context s₁ hReady).bind
        intro right s₂ hSettled₂
        apply (joined left right hOperator hSettled₂).bind
        intro larger s₃ hSettled₃
        exact ih larger hSettled₃

------------------------------------------------------------
-- Expressions
------------------------------------------------------------

theorem expressionOver
    (hLevels : ∀ height, Careful all (levels height)) :
    Careful all (Parse.expressionOver levels height) := by
  intro precedence context s hReady
  cases height with
  | zero => exact reaches_of_noted (errorNode_tooDeep hReady)
  | succ height =>
      apply nested
      have hOperand : Watches all (reaches (Settled all))
          (Parse.operand levels height context) s.enter :=
        operand hLevels hReady
      apply hOperand.bind
      intro left s₁ hSettled
      exact folds hLevels precedence left hSettled

end Levels

end Watches

/- Expressions are careful at every depth of nesting. -/
theorem careful_expression
    (all : List Lexeme)
    (n height : Nat) :
    Careful all (expression n height) := by
  induction n generalizing height with
  | zero =>
      intro precedence context s hReady
      exact Watches.reaches_of_noted
        (Watches.errorNode_tooDeep hReady)
  | succ n ih => exact Watches.expressionOver ih

end ElixirReader
