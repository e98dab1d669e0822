import ElixirReader.Proofs.Errors.Blocks
import ElixirReader.Proofs.Parser.Calls

/-
  This file follows errors through calls: their arguments and
  do blocks, what stands behind a dot, and keys in brackets.

  Key definitions include:
    * `Suffix.nodes`

  Main declarations:
    * `Reads.callSuffix`
    * `Reads.identifier`
    * `Reads.dotted`
    * `Reads.access`
-/

namespace ElixirReader

open Parse

variable {n k : Nat}
variable {l : Lexeme}
variable {ls : List Lexeme}
variable {s s' : ParseState}
variable {expr : ExpressionParser}
variable {context : Context}

------------------------------------------------------------
-- Trees of suffixes
------------------------------------------------------------

/- The trees in what follows the name of a call. -/
def Suffix.nodes
    (suffix : Suffix) : List Node :=
  suffix.arguments ++
    suffix.doBlock.toList.flatMap DoBlock.nodes

/- The trees in what makes a call of a name, if it is one. -/
def suffixNodes
    (suffix : Option Suffix) : List Node :=
  suffix.toList.flatMap Suffix.nodes

theorem containsError_call
    (target : Target Node)
    (start : Span)
    (suffix : Suffix) :
    (suffix.call target start).containsError = true ↔
      HasError (target.nodes ++ suffix.nodes) := by
  rw [Suffix.call, containsError_mk _ rfl]
  simp [Form.nodes, Suffix.nodes]

namespace Reads

------------------------------------------------------------
-- Arguments
------------------------------------------------------------

theorem argumentsFor
    (hExpr : Candid n expr) :
    Reads [] [] [] nodesOf (Parse.argumentsFor expr context k)
      s := by
  induction k generalizing s with
  | zero =>
      have hPure : Reads [] [] [] nodesOf
          (Pure.pure [] : Parse (List Node)) s :=
        pure (by simp)
      exact hPure.cutOff
  | succ k ih =>
      apply bind_rest
      split
      · rename_i hAhead
        apply (keywords hExpr hAhead).bind
        intro pairs s₁ _
        exact pure (by simp)
      · apply (hExpr.reads 0 .argument s).bind
        intro argument s₁ _
        apply bind_isAt
        split
        · rename_i hComma
          rw [Bool.and_eq_true] at hComma
          rcases exists_of_isAt hComma.2 with
            ⟨l, ls, hRest, hKind⟩
          apply bind_skip_flat hRest (by rw [hKind]; rfl)
            (.inl (Lexeme.isUnfinished_of_isComplete
              (by rw [hKind]; rfl)))
          intro s₂ _
          have hSkip : Reads [] [] [] noNodes
            Parse.skipLineEnds s₂ := skipLineEnds
          apply hSkip.bind_silent
          intro _ s₃ _
          apply ih.bind
          intro more s₄ _
          exact pure (by simp)
        · exact pure (by simp)

theorem parenthesizedSuffix
    (hExpr : Candid n expr)
    (hRest : s.rest = l :: ls)
    (hKind : l.kind = .opening .parenthesis) :
    Reads [] [] [] Suffix.nodes (Parse.parenthesizedSuffix expr)
      s := by
  apply (enclosed hExpr hRest hKind).bind
  rintro ⟨arguments, span⟩ s' _
  exact pure (by simp [Suffix.nodes])

theorem openSuffix
    (hExpr : Candid n expr) :
    Reads [] [] [] Suffix.nodes (Parse.openSuffix expr context)
      s := by
  apply bind_rest
  have hArguments : Reads [] [] [] nodesOf
      (Parse.argumentsFor expr context (s.rest.length + 1)) s :=
    argumentsFor hExpr
  apply hArguments.bind
  intro arguments s₁ _
  apply bind_previousSpan
  intro previous
  exact pure (by simp [Suffix.nodes])

theorem callArguments
    (hExpr : Candid n expr) :
    Reads [] [] [] suffixNodes
      (Parse.callArguments expr context) s := by
  apply bind_rest
  split
  · rename_i hTouching
    rcases exists_of_head?_any hTouching with
      ⟨l, ls, hRest, hKind⟩
    simp only [Bool.and_eq_true, beq_iff_eq] at hKind
    apply (parenthesizedSuffix hExpr hRest hKind.1).bind
    intro suffix s' _
    exact pure (by simp [suffixNodes])
  · split
    · have hOpen : Reads [] [] [] Suffix.nodes
        (Parse.openSuffix expr context) s := openSuffix hExpr
      apply hOpen.bind
      intro suffix s' _
      exact pure (by simp [suffixNodes])
    · split
      · apply bind_currentSpan
        intro span
        exact pure (by simp [suffixNodes, Suffix.bare,
          Suffix.nodes])
      · exact pure (by simp [suffixNodes])

end Reads

/- Arguments come without a do block. -/
theorem doBlock_of_callArguments
    {suffix : Suffix}
    (hEq : callArguments expr context s = (some suffix, s')) :
    suffix.doBlock = none := by
  have hSuffix := congrArg Prod.fst hEq
  rw [callArguments, Parse.bind_apply] at hSuffix
  split at hSuffix
  · cases hSuffix
    rfl
  · split at hSuffix
    · cases hSuffix
      rfl
    · split at hSuffix
      · cases hSuffix
        rfl
      · cases hSuffix

namespace Reads

theorem attachDo
    {suffix : Suffix}
    (hExpr : Candid n expr)
    (hNone : suffix.doBlock = none) :
    Reads [] [] suffix.nodes Suffix.nodes
      (Parse.attachDo expr context suffix) s := by
  apply bind_isAt
  split
  · rename_i hDo
    rw [Bool.and_eq_true] at hDo
    rcases exists_of_isAt hDo.2 with
      ⟨l, ls, hRest, hKind⟩
    apply (doBlock hExpr hRest hKind).bind
    intro b s' _
    exact pure (by simp [Suffix.nodes, hNone])
  · exact pure Iff.rfl

theorem callSuffix
    (hExpr : Candid n expr) :
    Reads [] [] [] suffixNodes (Parse.callSuffix expr context)
      s := by
  have hArguments : Reads [] [] [] suffixNodes
    (Parse.callArguments expr context) s := callArguments hExpr
  apply hArguments.bind_seen
  rintro (_ | suffix) s' hEq
  · exact pure Iff.rfl
  · have hAttached : Reads [] [] suffix.nodes Suffix.nodes
        (Parse.attachDo expr context suffix) s' :=
      attachDo hExpr (doBlock_of_callArguments hEq)
    apply (hAttached.congr_seen (by simp [suffixNodes])).bind_seen
    intro suffix' s'' _
    exact pure (by simp [suffixNodes])

theorem identifier
    (hExpr : Candid n expr)
    (name : Lexeme) :
    Reads [] [] [] nodeOf (Parse.identifier expr context name)
      s := by
  have hSuffix : Reads [] [] [] suffixNodes
    (Parse.callSuffix expr context) s := callSuffix hExpr
  apply hSuffix.bind_seen
  rintro (_ | suffix) s' _
  · apply pure
    rw [hasError_nodeOf, containsError_mk _ rfl]
    rfl
  · apply pure
    rw [hasError_nodeOf, containsError_call]
    simp [suffixNodes, Target.nodes]

------------------------------------------------------------
-- Dots
------------------------------------------------------------

theorem remoteCall
    (hExpr : Candid n expr)
    (receiver : Node)
    (name : String)
    (dot nameSpan : Span) :
    Reads [] [] [receiver] nodeOf
      (Parse.remoteCall expr context receiver name dot nameSpan)
      s := by
  have hSuffix : Reads [] [] [] suffixNodes
    (Parse.callSuffix expr context) s := callSuffix hExpr
  apply hSuffix.bind
  rintro (_ | suffix) s' _ <;> apply pure <;>
    rw [hasError_nodeOf, containsError_call] <;>
    simp [suffixNodes, Target.nodes, Suffix.bare, Suffix.nodes]

end Reads

/- A plain text holds no trees. -/
theorem nodes_of_literal?
    {t : Text Node}
    {name : String}
    (hLiteral : t.literal? = some name) :
    t.nodes = [] := by
  unfold Text.literal? at hLiteral
  split at hLiteral
  · cases hLiteral
  · rename_i hPlain
    rw [Text.nodes, List.flatMap_eq_nil_iff]
    intro segment hMem
    rw [Text.isInterpolated, Bool.not_eq_true,
      List.any_eq_false] at hPlain
    have hSegment := hPlain segment hMem
    cases segment with
    | interpolation n => exact absurd rfl hSegment
    | _ => rfl

namespace Reads

/- A name that holds trees is replaced by an error. -/
theorem quotedRemote
    {f : Family}
    {layout : Layout}
    (hExpr : Candid n expr)
    (hRest : s.rest = l :: ls)
    (hKind : l.kind = .promoter f layout)
    (receiver : Node)
    (dot : Span) :
    Reads [] [] [receiver] nodeOf
      (Parse.quotedRemote expr context receiver dot) s := by
  apply (text hExpr hRest hKind).bind
  rintro ⟨t, nameSpan⟩ s' _
  simp only
  split
  · rename_i name hLiteral
    apply (remoteCall hExpr receiver name dot nameSpan).congr_seen
    simp [textNodes, nodes_of_literal? hLiteral]
  · exact failure _ _ _

theorem enclosedCall
    {b : Bracket}
    (hExpr : Candid n expr)
    (hRest : s.rest = l :: ls)
    (hKind : l.kind = .opening b)
    (target : Target Node)
    (start : Span) :
    Reads [] [] target.nodes nodeOf
      (Parse.enclosedCall expr b target start) s := by
  apply (enclosed hExpr hRest hKind).bind
  rintro ⟨arguments, last⟩ s' _
  apply pure
  rw [hasError_nodeOf, containsError_call]
  simp [Suffix.nodes]

theorem afterDot
    (hExpr : Candid n expr)
    (hRest : s.rest = l :: ls)
    (receiver : Node)
    (dot : Span) :
    Reads [] [] [receiver] nodeOf
      (Parse.afterDot expr context receiver dot l) s := by
  unfold Parse.afterDot
  split
  · rename_i hKind
    apply bind_skip_flat hRest (by rw [hKind]; rfl)
      (.inl (Lexeme.isUnfinished_of_isComplete
        (by rw [hKind]; rfl)))
    intro s' _
    exact remoteCall hExpr _ _ _ _
  · rename_i hKind
    apply bind_skip_flat hRest (by rw [hKind]; rfl)
      (.inl (Lexeme.isUnfinished_of_isComplete
        (by rw [hKind]; rfl)))
    intro s' _
    exact pure (by simp [containsError_extendAlias])
  · rename_i hKind
    exact enclosedCall hExpr hRest hKind (.anonymous receiver dot)
      receiver.span
  · rename_i hKind
    exact enclosedCall hExpr hRest hKind
      (.remote receiver _ dot l.span) receiver.span
  · split
    · rename_i hQuoted
      rcases exists_of_isQuotePromoter hQuoted with
        ⟨f, hKind, _⟩
      exact quotedRemote hExpr hRest hKind _ _
    · exact wantedNode _

theorem dotted
    (hExpr : Candid n expr)
    (hRest : s.rest = l :: ls)
    (hKind : l.kind = .dot)
    (receiver : Node) :
    Reads [] [] [receiver] nodeOf
      (Parse.dotted expr context receiver) s := by
  apply bind_currentSpan
  intro dot
  apply bind_skip_flat hRest (by rw [hKind]; rfl)
    (.inl (Lexeme.isUnfinished_of_isComplete (by rw [hKind]; rfl)))
  intro s' _
  apply bind_peek
  cases hRest' : s'.rest with
  | nil => exact errorNode _
  | cons m ms => exact afterDot hExpr hRest' receiver dot

------------------------------------------------------------
-- Access
------------------------------------------------------------

theorem accessKey
    (hExpr : Candid n expr) :
    Reads [] [] [] nodeOf (Parse.accessKey expr) s := by
  have hSkip : Reads [] [] [] noNodes Parse.skipLineEnds s :=
    skipLineEnds
  apply hSkip.bind_silent
  intro _ s₁ _
  apply bind_rest
  split
  · rename_i hAhead
    exact keywords hExpr hAhead
  · exact hExpr.reads 0 .container s₁

end Reads

/- What stands in for a closing bracket or word is an error. -/
theorem containsError_of_expectClosing
    {closer : Closer}
    {opened : Span}
    {e : Node}
    (hEq : expectClosing closer opened s = (.error e, s')) :
    e.containsError = true := by
  rw [expectClosing_eq, Parse.bind_apply] at hEq
  generalize (skipLineEnds s).2 = s₁ at hEq
  cases hRest : s₁.rest with
  | nil =>
      rw [closeHere, Parse.bind_apply, peek_of_nil hRest] at hEq
      cases hEq
      exact containsError_failure _ _
  | cons l ls =>
      rw [closeHere, Parse.bind_apply, peek_of_cons hRest] at hEq
      change expect closer.kind _ s₁ = _ at hEq
      by_cases hKind : l.kind = closer.kind
      · rw [expect_of_cons _ hRest hKind] at hEq
        cases hEq
      · rw [expect_of_ne] at hEq
        · cases hEq
          exact containsError_failure _ _
        · intro m hHead
          rw [hRest] at hHead
          cases hHead
          exact hKind

namespace Reads

/- An error takes the place of a key that is not closed. -/
theorem closeAccess
    (opened : Span)
    (key : Node) :
    Reads [.bracket .square] [] [key] (fun r => [r.1])
      (Parse.closeAccess opened key) s := by
  have hClosing : Reads [.bracket .square] [] [] exceptOf
      (Parse.expectClosing (.bracket .square) opened) s :=
    expectClosing opened rfl rfl
  apply hClosing.bind
  rintro (e | l) s' hEq
  · apply bind_previousSpan
    intro span
    exact pure (by simp [containsError_of_expectClosing hEq])
  · exact pure (by simp)

theorem access
    (hExpr : Candid n expr)
    (hRest : s.rest = l :: ls)
    (hKind : l.kind = .opening .square)
    (subject : Node) :
    Reads [] [] [subject] nodeOf (Parse.access expr subject)
      s := by
  apply bind_currentSpan
  intro opened
  apply bind_skip_opening hRest
    (show l.kind.opener? = some (.bracket .square) by
      rw [hKind]; rfl) rfl
  intro s₁ _
  have hKey : Reads [] [] [] nodeOf (Parse.accessKey expr) s₁ :=
    accessKey hExpr
  apply (hKey.inside rfl).bind
  intro key s₂ _
  apply ((closeAccess opened key).carry [subject]).bind_seen
  rintro ⟨key', last⟩ s₃ _
  apply pure
  rw [hasError_nodeOf, containsError_mk _ rfl]
  rfl

end Reads

end ElixirReader
