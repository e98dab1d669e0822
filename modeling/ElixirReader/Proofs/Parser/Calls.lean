import ElixirReader.Proofs.Parser.Blocks
import ElixirReader.Parser.Call

/-
  This file compares runs over calls: their arguments and do
  blocks, what stands behind a dot, and keys in brackets.

  Main declarations:
    * `Run.callSuffix`
    * `Run.identifier`
    * `Run.dotted`
    * `Run.access`
-/

namespace ElixirReader

open Parse

variable {α β : Type}
variable {h : Setting}
variable {inside : Bool}
variable {n k m : Nat}
variable {s s' : ParseState}
variable {expr : ExpressionParser}
variable {context : Context}
variable {l : Lexeme}
variable {ls : List Lexeme}

------------------------------------------------------------
-- Arguments
------------------------------------------------------------

/- Where no lexeme is left there is no argument. -/
theorem fails_argumentsFor
    (hExpr : Sound n expr)
    (hRest : s.rest = []) :
    Fails (argumentsFor expr context (k + 1)) s := by
  have hHead : (expr 0 .argument s).2.rest.head? = none := by
    rw [hExpr.rest_eq_nil 0 .argument hRest]
    rfl
  have hEq :
      (argumentsFor expr context (k + 1) s).2 =
        (expr 0 .argument s).2 := by
    rw [argumentsFor]
    change ((if ElixirReader.keywordAhead s.rest = true then _
      else _ : Parse _) s).2 = _
    rw [hRest]
    change ((if (context.manyArguments &&
      (expr 0 .argument s).2.rest.head?.any (·.kind == .comma)) = true
      then _ else _ : Parse _) (expr 0 .argument s).2).2 = _
    rw [hHead]
    simp only [Option.any_none, Bool.and_false]
    rfl
  intro hPoisoned
  rw [hEq]
  exact hExpr.fails 0 .argument s hRest hPoisoned

theorem Run.argumentsFor
    (hExpr : Sound n expr)
    (hBound : s.rest.length < k)
    (hBound' : s.rest.length + h.after.length < m) :
    Run h n inside (Parse.argumentsFor expr context k)
      (Parse.argumentsFor expr context m) s := by
  induction k generalizing m s with
  | zero => omega
  | succ k ih =>
      cases m with
      | zero => omega
      | succ m =>
          apply Run.keywordAhead
          · intro hAhead
            apply (Run.keywords hExpr hAhead).bind
            intro pairs s₁ _
            exact Run.pure _
          · intro _
            apply (hExpr.run h inside 0 .argument s).bind_le
            intro argument s₁ hLe _
            apply Run.bind_isAt rfl
            · intro comma ls hRest hKind
              simp only [Bool.and_true]
              split
              · apply Run.bind_skip hRest (by rw [hKind]; rfl)
                intro s₂ hRest' _
                have hLess : s₂.rest.length < s₁.rest.length := by
                  rw [hRest', hRest]
                  exact Nat.lt_succ_self _
                apply Run.bind_skipLineEnds
                · intro s₃ hLe'
                  apply (ih (by omega) (by omega)).bind
                  intro more s₄ _
                  exact Run.pure _
                · intro s₃ hNil
                  cases k with
                  | zero => omega
                  | succ k => exact fails_argumentsFor hExpr hNil
              · exact Run.pure _
            · intro _
              simp only [Bool.and_false]
              exact Run.pure _
          · intro _ hClean hEnds hPoisoned hErrors
            exact fails_keywords hExpr hClean hEnds hPoisoned
              hErrors

theorem Run.parenthesizedSuffix
    (hExpr : Sound n expr)
    (hRest : s.rest = l :: ls)
    (hKind : l.kind = .opening .parenthesis) :
    Run h n inside (Parse.parenthesizedSuffix expr)
      (Parse.parenthesizedSuffix expr) s := by
  apply (Run.enclosed hExpr hRest hKind).bind
  rintro ⟨arguments, span⟩ s' _
  exact Run.pure _

theorem Run.openSuffix
    (hExpr : Sound n expr)
    (hBefore : s.before.isSome = true) :
    Run h n inside (Parse.openSuffix expr context)
      (Parse.openSuffix expr context) s := by
  apply Run.bind_rest
  have hArguments :
      Run h n inside
        (Parse.argumentsFor expr context (s.rest.length + 1))
        (Parse.argumentsFor expr context
          ((s.rest ++ h.after).length + 1)) s := by
    apply Run.argumentsFor hExpr
    · omega
    · rw [List.length_append]
      omega
  apply hArguments.bind_le
  intro arguments s' _ hBefore'
  apply Run.bind_previousSpan (hBefore' hBefore)
  intro previous
  exact Run.pure _

theorem Run.attachDo
    (hExpr : Sound n expr)
    (suffix : Suffix) :
    Run h n inside (Parse.attachDo expr context suffix)
      (Parse.attachDo expr context suffix) s := by
  apply Run.bind_isAt rfl
  · intro l ls hRest hKind
    simp only [Bool.and_true]
    split
    · apply (Run.doBlock hExpr hRest hKind).bind
      intro b s' _
      exact Run.pure _
    · exact Run.pure _
  · intro _
    simp only [Bool.and_false]
    exact Run.pure _

theorem Run.callArguments
    (hExpr : Sound n expr)
    (hBefore : s.before.isSome = true) :
    Run h n inside (Parse.callArguments expr context)
      (Parse.callArguments expr context) s := by
  apply Run.bind_rest
  apply Run.of_eq _ fun hSees => by
    rw [hSees.any_head?_append (fun l =>
        l.kind == .opening .parenthesis && !l.spaced)
        (fun l hEnds => by
          rcases Kind.endsText_cases hEnds with
            hKind | hKind | hKind | hKind <;> simp [hKind]),
      hSees.any_head?_append (·.kind == .word .do)
        (fun l hEnds => by
          rcases Kind.endsText_cases hEnds with
            hKind | hKind | hKind | hKind <;> simp [hKind]),
      hSees.argumentAhead_append]
  cases hTouching : s.rest.head?.any (fun l =>
      l.kind == .opening .parenthesis && !l.spaced) with
  | true =>
      rcases exists_of_head?_any hTouching with
        ⟨l, ls, hRest, hKind⟩
      simp only [Bool.and_eq_true, beq_iff_eq] at hKind
      apply (Run.parenthesizedSuffix hExpr hRest hKind.1).bind
      intro suffix s' _
      exact Run.pure _
  | false =>
      rw [if_neg Bool.false_ne_true]
      split
      · apply (Run.openSuffix hExpr hBefore).bind
        intro suffix s' _
        exact Run.pure _
      · split
        · rename_i hBlock
          rw [Bool.and_eq_true] at hBlock
          rcases exists_of_head?_any hBlock.2 with
            ⟨l, ls, hRest, _⟩
          apply Run.bind_currentSpan hRest
          exact Run.pure _
        · exact Run.pure _

theorem Run.callSuffix
    (hExpr : Sound n expr)
    (hBefore : s.before.isSome = true) :
    Run h n inside (Parse.callSuffix expr context)
      (Parse.callSuffix expr context) s := by
  apply (Run.callArguments hExpr hBefore).bind
  rintro (_ | suffix) s' _
  · exact Run.pure _
  · apply (Run.attachDo hExpr suffix).bind
    intro suffix' s'' _
    exact Run.pure _

theorem Run.identifier
    (hExpr : Sound n expr)
    (hBefore : s.before.isSome = true)
    (name : Lexeme) :
    Run h n inside (Parse.identifier expr context name)
      (Parse.identifier expr context name) s := by
  apply (Run.callSuffix hExpr hBefore).bind
  rintro (_ | suffix) s' _
  · exact Run.pure _
  · exact Run.pure _

------------------------------------------------------------
-- Dots
------------------------------------------------------------

theorem Run.remoteCall
    (hExpr : Sound n expr)
    (hBefore : s.before.isSome = true)
    (receiver : Node)
    (name : String)
    (dot nameSpan : Span) :
    Run h n inside
      (Parse.remoteCall expr context receiver name dot nameSpan)
      (Parse.remoteCall expr context receiver name dot nameSpan)
      s := by
  apply (Run.callSuffix hExpr hBefore).bind
  intro suffix s' _
  exact Run.pure _

theorem Run.quotedRemote
    {f : Family}
    (hExpr : Sound n expr)
    (hBefore : s.before.isSome = true)
    (hRest : s.rest = l :: ls)
    (hKind : l.kind = .promoter f .quoted)
    (receiver : Node)
    (dot : Span) :
    Run h n inside
      (Parse.quotedRemote expr context receiver dot)
      (Parse.quotedRemote expr context receiver dot) s := by
  apply (Run.text hExpr hRest hKind).bind_le
  rintro ⟨t, nameSpan⟩ s' _ hBefore'
  simp only
  split
  · exact Run.remoteCall hExpr (hBefore' hBefore) _ _ _ _
  · exact Run.failure _ _ _

theorem Run.enclosedCall
    {b : Bracket}
    (hExpr : Sound n expr)
    (hRest : s.rest = l :: ls)
    (hKind : l.kind = .opening b)
    (target : Target Node)
    (start : Span) :
    Run h n inside (Parse.enclosedCall expr b target start)
      (Parse.enclosedCall expr b target start) s := by
  apply (Run.enclosed hExpr hRest hKind).bind
  rintro ⟨arguments, last⟩ s' _
  exact Run.pure _

theorem Run.afterDot
    (hExpr : Sound n expr)
    (hBefore : s.before.isSome = true)
    (hRest : s.rest = l :: ls)
    (receiver : Node)
    (dot : Span) :
    Run h n inside (Parse.afterDot expr context receiver dot l)
      (Parse.afterDot expr context receiver dot l) s := by
  unfold Parse.afterDot
  split
  · rename_i hKind
    apply Run.bind_skip hRest (by rw [hKind]; rfl)
    intro s' _ hBefore'
    exact Run.remoteCall hExpr hBefore' _ _ _ _
  · rename_i hKind
    apply Run.bind_skip hRest (by rw [hKind]; rfl)
    intro s' _ _
    exact Run.pure _
  · rename_i hKind
    exact Run.enclosedCall hExpr hRest hKind _ _
  · rename_i hKind
    exact Run.enclosedCall hExpr hRest hKind _ _
  · split
    · rename_i hQuoted
      rcases exists_of_isQuotePromoter hQuoted with
        ⟨f, hKind, _⟩
      exact Run.quotedRemote hExpr hBefore hRest hKind _ _
    · exact Run.wantedNode _

theorem Run.dotted
    (hExpr : Sound n expr)
    (hRest : s.rest = l :: ls)
    (hPlain : l.kind.isPlain = true)
    (receiver : Node) :
    Run h n inside (Parse.dotted expr context receiver)
      (Parse.dotted expr context receiver) s := by
  apply Run.bind_currentSpan hRest
  apply Run.bind_skip hRest hPlain
  intro s' _ hBefore
  apply Run.bind_peek_or_fails
  · intro m ms hRest'
    exact Run.afterDot hExpr hBefore hRest' _ _
  · intro _
    exact ⟨Run.errorNode _, fails_errorNode _⟩

------------------------------------------------------------
-- Access
------------------------------------------------------------

theorem Run.accessKey
    (hExpr : Sound n expr) :
    Run h n true (Parse.accessKey expr) (Parse.accessKey expr)
      s := by
  apply Run.skipLineEnds.bind
  intro _ s₁ _
  apply Run.keywordAhead
  · exact fun hAhead => Run.keywords hExpr hAhead
  · exact fun _ => hExpr.run h true 0 .container s₁
  · intro hInside
    cases hInside

/- What closes an access makes its key complete. -/
def accessed
    (opened : Span)
    (key : Node) :
    Except Node Lexeme → Parse (Node × Span)
| .ok l => return (key, opened.merge l.span)
| .error e => do
    return (e, opened.merge (← previousSpan))

theorem closeAccess_bind
    (opened : Span)
    (key : Node)
    (f : Node × Span → Parse α) :
    Parse.closeAccess opened key >>= f =
      Parse.expectClosing (.bracket .square) opened >>= fun r =>
        accessed opened key r >>= f := by
  have hEq :
      Parse.closeAccess opened key =
        Parse.expectClosing (.bracket .square) opened >>=
          accessed opened key := rfl
  rw [hEq, bind_assoc]

theorem Run.accessed
    (opened : Span)
    (key : Node)
    (r : Except Node Lexeme)
    (hBefore : s.before.isSome = true) :
    Run h n inside (ElixirReader.accessed opened key r)
      (ElixirReader.accessed opened key r) s := by
  cases r with
  | ok l => exact Run.pure _
  | error e =>
      apply Run.bind_previousSpan hBefore
      intro span
      exact Run.pure _

theorem Run.access
    (hExpr : Sound n expr)
    (hRest : s.rest = l :: ls)
    (hKind : l.kind = .opening .square)
    (subject : Node) :
    Run h n inside (Parse.access expr subject)
      (Parse.access expr subject) s := by
  apply Run.bind_currentSpan hRest
  simp only [closeAccess_bind]
  apply Run.bracketed hRest hKind
  · intro s' _ _
    exact Run.accessKey hExpr
  · intro key r s' hBefore
    apply (Run.accessed l.span key r hBefore).bind
    rintro ⟨key', last⟩ s'' _
    exact Run.pure _

end ElixirReader
