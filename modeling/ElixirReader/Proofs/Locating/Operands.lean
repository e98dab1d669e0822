import ElixirReader.Proofs.Building.Operands
import ElixirReader.Proofs.Locating.Constructs

/-
  This file follows spans through calls, operands, suffixes and
  operators, and so through all expressions.

  Key definitions include:
    * `Suffix.IsLocated`

  Main declarations:
    * `Locates.callSuffix`
    * `Locates.primary`
    * `Locates.suffixes`
    * `Locates.folds`
    * `Locates.expression`
-/

namespace ElixirReader

open Parse

variable {P : Span → Prop}
variable {s : ParseState}
variable {expr : ExpressionParser}
variable {context : Context}

/- The trees, the do block and the end of what follows a name. -/
structure Suffix.IsLocated
    (P : Span → Prop)
    (suffix : Suffix) : Prop where
  nodes : AllLocated P suffix.nodes
  marks : ∀ x ∈ suffix.doBlock.toList.flatMap DoBlock.marks, P x
  last : P suffix.last

/- A suffix without a do block. -/
theorem Suffix.isLocated_mk
    {arguments : List Node}
    {last : Span}
    (parentheses : Bool)
    (hArguments : AllLocated P arguments)
    (hLast : P last) :
    Suffix.IsLocated P ⟨arguments, parentheses, none, last⟩ :=
  ⟨by simpa [Suffix.nodes] using hArguments, List.forall_mem_nil _,
    hLast⟩

/- A call goes from its start to the end of its suffix. -/
theorem Suffix.IsLocated.call
    [Merges P]
    {suffix : Suffix}
    {target : Target Node}
    {start : Span}
    (hSuffix : suffix.IsLocated P)
    (hNodes : AllLocated P target.nodes)
    (hMarks : ∀ x ∈ target.marks, P x)
    (hStart : P start) :
    Located P (suffix.call target start) := by
  refine located_iff.mpr ⟨Merges.merge hStart hSuffix.last,
    List.forall_mem_append.mpr ⟨hMarks, hSuffix.marks⟩, ?_⟩
  have hAll := (allThroughout_append _ _).mpr ⟨hNodes, hSuffix.nodes⟩
  simpa [Form.nodes, Suffix.nodes] using hAll

namespace Locates

section Expressions

variable [Merges P]
variable (hExpr : ∀ precedence context s,
  Locates P (fun n _ => Located P n) (expr precedence context) s)

include hExpr

------------------------------------------------------------
-- Arguments
------------------------------------------------------------

theorem argumentsFor
    (n : Nat)
    (s : ParseState) :
    Locates P (fun ns _ => AllLocated P ns)
      (Parse.argumentsFor expr context n) s := by
  induction n generalizing s with
  | zero =>
      apply cutOff.bind
      intro _ s₁ _ _
      exact pure allThroughout_nil
  | succ n ih =>
      apply bind_rest
      split
      · apply (keywords hExpr).bind
        intro pairs s₁ _ hPairs
        exact pure (by simpa using hPairs)
      · apply (hExpr _ _ _).bind
        intro argument s₁ _ hArgument
        apply bind_isAt
        intro isComma
        split
        · apply (skip 1).bind
          intro _ s₂ _ _
          apply skipLineEnds.bind
          intro _ s₃ _ _
          apply (ih s₃).bind
          intro more s₄ _ hMore
          exact pure ((allThroughout_cons _ _).mpr ⟨hArgument, hMore⟩)
        · exact pure (by simpa using hArgument)

theorem parenthesizedSuffix :
    Locates P (fun suffix _ => suffix.IsLocated P)
      (Parse.parenthesizedSuffix expr) s := by
  apply (enclosed hExpr .parenthesis).bind
  rintro ⟨arguments, span⟩ s₁ _ ⟨hArguments, hSpan⟩
  exact pure (Suffix.isLocated_mk true hArguments hSpan)

theorem openSuffix :
    Locates P (fun suffix _ => suffix.IsLocated P)
      (Parse.openSuffix expr context) s := by
  apply bind_rest
  apply (argumentsFor hExpr _ _).bind
  intro arguments s₁ _ hArguments
  apply bind_previousSpan
  intro previous hPrevious
  apply pure
  apply Suffix.isLocated_mk false hArguments
  cases hLast : arguments.getLast? with
  | none => exact hPrevious
  | some n =>
      exact Located.span (hArguments n (List.mem_of_getLast? hLast))

theorem callArguments :
    Locates P (fun found _ => ∀ suffix ∈ found, suffix.IsLocated P)
      (Parse.callArguments expr context) s := by
  apply bind_rest
  split
  · apply (parenthesizedSuffix hExpr).bind
    intro suffix s₁ _ hSuffix
    exact pure fun _ hSome => Option.some.inj hSome ▸ hSuffix
  · split
    · apply (openSuffix hExpr).bind
      intro suffix s₁ _ hSuffix
      exact pure fun _ hSome => Option.some.inj hSome ▸ hSuffix
    · split
      · apply bind_currentSpan
        intro hSpan _
        exact pure fun _ hSome => Option.some.inj hSome ▸
          Suffix.isLocated_mk false allThroughout_nil hSpan
      · exact pure fun _ hNone => (Option.not_mem_none _ hNone).elim

theorem attachDo
    {suffix : Suffix}
    (hSuffix : suffix.IsLocated P) :
    Locates P (fun suffix _ => suffix.IsLocated P)
      (Parse.attachDo expr context suffix) s := by
  apply bind_isAt
  intro isDo
  split
  · apply (doBlock hExpr).bind
    intro b s₁ _ hBlock
    have hArguments := ((allThroughout_append _ _).mp hSuffix.nodes).1
    refine pure ⟨?_, by simpa using hBlock.marks,
      hBlock.marks _ List.mem_cons_self⟩
    simp [Suffix.nodes, hArguments, hBlock.nodes]
  · exact pure hSuffix

theorem callSuffix :
    Locates P (fun found _ => ∀ suffix ∈ found, suffix.IsLocated P)
      (Parse.callSuffix expr context) s := by
  apply (callArguments hExpr).bind
  rintro (_ | suffix) s₁ _ hFound
  · exact pure fun _ hNone => (Option.not_mem_none _ hNone).elim
  · apply (attachDo hExpr (hFound suffix rfl)).bind
    intro suffix s₂ _ hSuffix
    exact pure fun _ hSome => Option.some.inj hSome ▸ hSuffix

theorem identifier
    {name : Lexeme}
    (hName : P name.span) :
    Locates P (fun n _ => Located P n)
      (Parse.identifier expr context name) s := by
  apply (callSuffix hExpr).bind
  rintro (_ | suffix) s₁ _ hFound
  · exact pure (.mk hName rfl allThroughout_nil)
  · exact pure ((hFound suffix rfl).call allThroughout_nil
      (List.forall_mem_nil _) hName)

------------------------------------------------------------
-- Dots
------------------------------------------------------------

theorem remoteCall
    {receiver : Node}
    {dot nameSpan : Span}
    (name : String)
    (hReceiver : Located P receiver)
    (hDot : P dot)
    (hName : P nameSpan) :
    Locates P (fun n _ => Located P n)
      (Parse.remoteCall expr context receiver name dot nameSpan)
      s := by
  have hTarget : AllLocated P
      (Target.remote receiver name dot nameSpan).nodes := by
    simpa [Target.nodes] using hReceiver
  have hMarks : ∀ x ∈
      (Target.remote receiver name dot nameSpan).marks, P x := by
    simp [Target.marks, hDot, hName]
  apply (callSuffix hExpr).bind
  rintro (_ | suffix) s₁ _ hFound
  · have hBare := Suffix.isLocated_mk false allThroughout_nil hName
    exact pure (hBare.call hTarget hMarks hReceiver.span)
  · exact pure ((hFound suffix rfl).call hTarget hMarks hReceiver.span)

/- The complaint about an interpolation is at the quoted name. -/
theorem quotedRemote
    {receiver : Node}
    {dot : Span}
    (hReceiver : Located P receiver)
    (hDot : P dot) :
    Locates P (fun n _ => Located P n)
      (Parse.quotedRemote expr context receiver dot) s := by
  apply (text hExpr).bind
  rintro ⟨t, nameSpan⟩ s₁ _ ⟨_, hName, hStart⟩
  dsimp only
  split
  · exact remoteCall hExpr _ hReceiver hDot hName
  · exact (failure hName (Merges.merge hReceiver.span hName)
      (.inr ⟨rfl, hStart⟩)).mono fun _ _ hE => hE.1

theorem enclosedCall
    {target : Target Node}
    {start : Span}
    (bracket : Bracket)
    (hNodes : AllLocated P target.nodes)
    (hMarks : ∀ x ∈ target.marks, P x)
    (hStart : P start) :
    Locates P (fun n _ => Located P n)
      (Parse.enclosedCall expr bracket target start) s := by
  apply (enclosed hExpr bracket).bind
  rintro ⟨arguments, last⟩ s₁ _ ⟨hArguments, hLast⟩
  exact pure ((Suffix.isLocated_mk true hArguments hLast).call hNodes
    hMarks hStart)

theorem afterDot
    {receiver : Node}
    {dot : Span}
    {l : Lexeme}
    (hReceiver : Located P receiver)
    (hDot : P dot)
    (hL : P l.span) :
    Locates P (fun n _ => Located P n)
      (Parse.afterDot expr context receiver dot l) s := by
  unfold Parse.afterDot
  split
  · apply (skip 1).bind
    intro _ s₁ _ _
    exact remoteCall hExpr _ hReceiver hDot hL
  · apply (skip 1).bind
    intro _ s₁ _ _
    exact pure (located_extendAlias hReceiver hL)
  · exact enclosedCall hExpr _ (by simpa [Target.nodes] using hReceiver)
      (by simp [Target.marks, hDot]) hReceiver.span
  · exact enclosedCall hExpr _ (by simpa [Target.nodes] using hReceiver)
      (by simp [Target.marks, hDot, hL]) hReceiver.span
  · split
    · exact quotedRemote hExpr hReceiver hDot
    · exact (wantedNode _).mono fun _ _ hE => hE.1

theorem dotted
    {receiver : Node}
    (hReceiver : Located P receiver) :
    Locates P (fun n _ => Located P n)
      (Parse.dotted expr context receiver) s := by
  apply bind_currentSpan
  intro hDot _
  apply (skip 1).bind
  intro _ s₁ _ _
  apply bind_peek
  · exact (errorNode _).mono fun _ _ hE => hE.1
  · exact fun l hL _ _ => afterDot hExpr hReceiver hDot hL

------------------------------------------------------------
-- Access
------------------------------------------------------------

theorem accessKey :
    Locates P (fun n _ => Located P n) (Parse.accessKey expr) s := by
  apply skipLineEnds.bind
  intro _ s₁ _ _
  apply bind_rest
  split
  · exact keywords hExpr
  · exact hExpr _ _ _

omit hExpr in
theorem closeAccess
    {opened : Span}
    {key : Node}
    (hOpened : P opened)
    (hStart : opened.start ≤ s.front)
    (hKey : Located P key) :
    Locates P (fun r _ => Located P r.1 ∧ P r.2)
      (Parse.closeAccess opened key) s := by
  apply (expectClosing _ hOpened hStart).bind
  rintro (e | l) s₁ _ hFound
  · apply bind_previousSpan
    intro x hX
    exact pure ⟨hFound.1, Merges.merge hOpened hX⟩
  · exact pure ⟨hKey, Merges.merge hOpened hFound.1⟩

theorem access
    {subject : Node}
    (hSubject : Located P subject) :
    Locates P (fun n _ => Located P n) (Parse.access expr subject)
      s := by
  apply bind_currentSpan
  intro hOpened hAdmits
  apply (skip 1).bind
  intro _ s₁ hFront _
  apply (accessKey hExpr).bind
  intro key s₂ hFront' hKey
  apply (closeAccess hOpened
    (Nat.le_trans hAdmits.1 (Nat.le_trans hFront hFront')) hKey).bind
  rintro ⟨key, last⟩ s₃ _ ⟨hKey, hLast⟩
  exact pure (.mk (Merges.merge hSubject.span hLast) rfl
    (by simp [Form.nodes, hSubject, hKey]))

theorem withSuffix
    {node : Node}
    (kind : SuffixKind)
    (hNode : Located P node) :
    Locates P (fun n _ => Located P n)
      (Parse.withSuffix expr context node kind) s := by
  cases kind with
  | dot => exact dotted hExpr hNode
  | key => exact access hExpr hNode

------------------------------------------------------------
-- Primary expressions
------------------------------------------------------------

omit [Merges P] hExpr in
theorem single
    {f : Form Node}
    {l : Lexeme}
    (hL : P l.span)
    (hMarks : f.marks = [])
    (hNodes : f.nodes = []) :
    Locates P (fun n _ => Located P n) (Parse.single f l) s := by
  apply (skip 1).bind
  intro _ s₁ _ _
  exact pure (.mk hL hMarks (by simp [hNodes]))

omit [Merges P] hExpr in
theorem unexpected :
    Locates P whatever Parse.unexpected s := by
  apply bind_peek
  · exact pure trivial
  · exact fun l _ _ _ => pure trivial

theorem wordOperand
    {l : Lexeme}
    (w : Word)
    (hL : P l.span) :
    Locates P (fun n _ => Located P n) (Parse.wordOperand expr w l)
      s := by
  unfold Parse.wordOperand
  split
  · exact single hL rfl rfl
  · exact single hL rfl rfl
  · exact single hL rfl rfl
  · exact fn hExpr
  · apply unexpected.bind
    intro fault s₁ _ _
    exact (errorNode fault).mono fun _ _ hE => hE.1

theorem bracketOperand
    (bracket : Bracket) :
    Locates P (fun n _ => Located P n)
      (Parse.bracketOperand expr bracket) s := by
  cases bracket with
  | parenthesis => exact parenthesized hExpr
  | square => exact container hExpr .square (fun _ => rfl) fun _ => rfl
  | curly => exact container hExpr .curly (fun _ => rfl) fun _ => rfl
  | bits => exact container hExpr .bits (fun _ => rfl) fun _ => rfl

theorem promoterOperand :
    Locates P (fun n _ => Located P n)
      (Parse.promoterOperand expr context) s := by
  apply bind_rest
  split
  · exact keywords hExpr
  · exact textNode hExpr

omit [Merges P] hExpr in
theorem strayOperand
    (l : Lexeme) :
    Locates P (fun n _ => Located P n) (Parse.strayOperand l) s := by
  apply unexpected.bind
  intro fault s₁ _ _
  apply (errorNode fault).bind
  intro node s₂ _ hNode
  split
  · apply (skip 1).bind
    intro _ s₃ _ _
    exact pure hNode.1
  · exact pure hNode.1

theorem primaryAt
    {l : Lexeme}
    (hL : P l.span) :
    Locates P (fun n _ => Located P n)
      (Parse.primaryAt expr context l) s := by
  unfold Parse.primaryAt
  split
  · apply (skip 1).bind
    intro _ s₁ _ _
    apply poison.bind
    intro _ s₂ _ _
    exact pure (located_failure _ hL)
  · exact wordOperand hExpr _ hL
  · exact single hL rfl rfl
  · apply (skip 1).bind
    intro _ s₁ _ _
    exact identifier hExpr hL
  · exact character
  · exact atom hExpr
  · exact keywords hExpr
  · exact promoterOperand hExpr
  · exact promoterOperand hExpr
  · exact sigil hExpr
  · exact bracketOperand hExpr _
  · exact structOrMap hExpr
  · split
    · exact number
    · exact strayOperand l

theorem primary :
    Locates P (fun n _ => Located P n) (Parse.primary expr context)
      s := by
  apply bind_peek
  · exact (errorNode _).mono fun _ _ hE => hE.1
  · exact fun l hL _ _ => primaryAt hExpr hL

------------------------------------------------------------
-- Operators before an operand
------------------------------------------------------------

theorem unary
    {operator : Lexeme}
    (precedence : Nat)
    (hOperator : P operator.span) :
    Locates P (fun n _ => Located P n)
      (Parse.unary expr precedence context operator) s := by
  apply (skip 1).bind
  intro _ s₁ _ _
  apply skipLineEnds.bind
  intro _ s₂ _ _
  apply (hExpr _ _ _).bind
  intro operand s₃ _ hOperand
  exact pure (.mk (Merges.merge hOperator hOperand.span) rfl
    (by simpa [Form.nodes] using hOperand))

theorem capture
    {operator : Lexeme}
    (hOperator : P operator.span) :
    Locates P (fun n _ => Located P n)
      (Parse.capture expr context operator) s := by
  apply bind_rest
  split
  · apply (skip 1).bind
    intro _ s₁ _ _
    apply number.bind
    intro index s₂ _ hIndex
    exact pure (.mk (Merges.merge hOperator hIndex.span) rfl
      (by simpa [Form.nodes] using hIndex))
  · exact unary hExpr _ hOperator

omit hExpr in
theorem fullRange
    {l : Lexeme}
    (hL : P l.span) :
    Locates P (fun n _ => Located P n) (Parse.fullRange l) s := by
  apply (skip 1).bind
  intro _ s₁ _ _
  have hBare := Suffix.isLocated_mk false allThroughout_nil hL
  exact pure (hBare.call allThroughout_nil (List.forall_mem_nil _) hL)

end Expressions

------------------------------------------------------------
-- Operators between operands
------------------------------------------------------------

/- The error at an operator looks back over its right operand. -/
theorem checkStep
    {operator : InfixOperator}
    {right : Node}
    (left : Node)
    (hOperator : P operator.span)
    (hStart : operator.span.start ≤ s.front)
    (hRight : Located P right) :
    Locates P (fun n _ => Located P n)
      (Parse.checkStep operator left right) s := by
  unfold Parse.checkStep
  split
  · exact (failure hOperator hOperator (.inr ⟨rfl, hStart⟩)).mono
      fun _ _ hE => hE.1
  · exact pure hRight

theorem joined
    [Merges P]
    {operator : InfixOperator}
    {left right : Node}
    (hOperator : P operator.span)
    (hStart : operator.span.start ≤ s.front)
    (hLeft : Located P left)
    (hRight : Located P right) :
    Locates P (fun n _ => Located P n)
      (Parse.joined operator left right) s := by
  apply (checkStep left hOperator hStart hRight).bind
  intro right s₁ _ hRight
  exact pure (located_iff.mpr
    ⟨Merges.merge hLeft.span hRight.span,
      List.forall_mem_singleton.mpr hOperator,
      by simp [Form.nodes, hLeft, hRight]⟩)

/- An operator starts at a lexeme that is taken with it. -/
theorem infixAhead?_le
    [Merges P]
    {ls : List Lexeme}
    {i : InfixOperator}
    (hAll : ∀ l ∈ ls, P l.span)
    (hAhead : infixAhead? ls = some i) :
    P i.span ∧
      ∃ l ∈ ls.take i.length, i.span.start ≤ l.span.start := by
  obtain ⟨_, l, hTaken, hSpan⟩ := span_cases_of_infixAhead? hAhead
  have hL := hAll l (List.mem_of_mem_take hTaken)
  rcases hSpan with hSpan | ⟨m, hMem, hSpan⟩
  · rw [hSpan]
    exact ⟨hL, l, hTaken, Nat.le_refl _⟩
  · rw [hSpan]
    exact ⟨Merges.merge hL (hAll m hMem), l, hTaken,
      Span.start_merge_le _ _⟩

theorem eatInfix
    [Merges P]
    (precedence : Nat) :
    Locates P
      (fun found s' => ∀ i ∈ found,
        P i.span ∧ i.span.start ≤ s'.front)
      (Parse.eatInfix precedence) s := by
  apply of_inOrder
  intro hOrder
  apply bind_rest
  split
  · exact pure fun _ hNone => (Option.not_mem_none _ hNone).elim
  · rename_i i hAhead
    obtain ⟨hSpan, l, hTaken, hLe⟩ :=
      infixAhead?_le hOrder.rest hAhead
    split
    · exact pure fun _ hNone => (Option.not_mem_none _ hNone).elim
    · have hSkip :
          Locates P (fun _ s' => i.span.start ≤ s'.front)
            (Parse.skip i.length) s :=
        fun hOrder => ⟨hOrder.advance _, hOrder.front_le_advance _,
          Nat.le_trans hLe (hOrder.le_front_advance hTaken)⟩
      apply hSkip.bind
      intro _ s₁ _ hStart
      apply skipLineEnds.bind
      intro _ s₂ hFront _
      exact pure fun _ hSome => Option.some.inj hSome ▸
        ⟨hSpan, Nat.le_trans hStart hFront⟩

------------------------------------------------------------
-- Levels
------------------------------------------------------------

theorem tooDeep :
    Locates P (fun n _ => Located P n) Parse.tooDeep s :=
  (errorNode _).mono fun _ _ hE => hE.1

section Levels

variable [Merges P]
variable {levels : Levels}
variable (hLevels : ∀ h precedence context s,
  Locates P (fun n _ => Located P n) (levels h precedence context) s)

include hLevels

theorem suffixes
    {node : Node}
    (h : Nat)
    (hNode : Located P node) :
    Locates P (fun n _ => Located P n)
      (Parse.suffixes levels context h node) s := by
  induction h generalizing node s with
  | zero =>
      apply bind_rest
      split
      · exact pure hNode
      · exact tooDeep
  | succ h ih =>
      apply bind_rest
      split
      · exact pure hNode
      · apply (withSuffix (hLevels h) _ hNode).bind
        intro larger s₁ _ hLarger
        exact ih hLarger

theorem moduleAttribute
    {operator : Lexeme}
    (h : Nat)
    (hOperator : P operator.span) :
    Locates P (fun n _ => Located P n)
      (Parse.moduleAttribute levels h context operator) s := by
  apply (skip 1).bind
  intro _ s₁ _ _
  apply (primary (hLevels h)).bind
  intro operand s₂ _ hOperand
  exact suffixes hLevels h (.mk
    (Merges.merge hOperator hOperand.span) rfl
    (by simpa [Form.nodes] using hOperand))

theorem suffixed
    (h : Nat) :
    Locates P (fun n _ => Located P n)
      (Parse.suffixed levels h context) s := by
  apply (primary (hLevels h)).bind
  intro node s₁ _ hNode
  exact suffixes hLevels h hNode

theorem operandAt
    {l : Lexeme}
    (h : Nat)
    (hL : P l.span) :
    Locates P (fun n _ => Located P n)
      (Parse.operandAt levels h context l) s := by
  unfold Parse.operandAt
  split
  · exact unary (hLevels h) _ hL
  · exact unary (hLevels h) _ hL
  · exact unary (hLevels h) _ hL
  · exact unary (hLevels h) _ hL
  · exact capture (hLevels h) hL
  · exact fullRange hL
  · exact moduleAttribute hLevels h hL
  · exact suffixed hLevels h

theorem operand
    (h : Nat) :
    Locates P (fun n _ => Located P n)
      (Parse.operand levels h context) s := by
  apply bind_peek
  · exact (errorNode _).mono fun _ _ hE => hE.1
  · exact fun l hL _ _ => operandAt hLevels h hL

theorem folds
    {left : Node}
    (precedence h : Nat)
    (hLeft : Located P left) :
    Locates P (fun n _ => Located P n)
      (Parse.folds levels precedence context h left) s := by
  induction h generalizing left s with
  | zero =>
      apply (eatInfix precedence).bind
      rintro (_ | i) s₁ _ hFound
      · exact pure hLeft
      · obtain ⟨hOperator, hStart⟩ := hFound i rfl
        apply tooDeep.bind
        intro right s₂ hFront hRight
        exact joined hOperator (Nat.le_trans hStart hFront) hLeft hRight
  | succ h ih =>
      apply (eatInfix precedence).bind
      rintro (_ | i) s₁ _ hFound
      · exact pure hLeft
      · obtain ⟨hOperator, hStart⟩ := hFound i rfl
        apply (hLevels h _ _ _).bind
        intro right s₂ hFront hRight
        apply (joined hOperator (Nat.le_trans hStart hFront) hLeft
          hRight).bind
        intro larger s₃ _ hLarger
        exact ih hLarger

theorem expressionOver
    (h precedence : Nat)
    (context : Context)
    (s : ParseState) :
    Locates P (fun n _ => Located P n)
      (Parse.expressionOver levels h precedence context) s := by
  cases h with
  | zero => exact tooDeep
  | succ h =>
      apply nested
      intro s₁
      apply (operand hLevels h).bind
      intro left s₂ _ hLeft
      exact folds hLevels precedence h hLeft

end Levels

/- All expressions, nested at most so many times. -/
theorem expression
    [Merges P]
    (n h precedence : Nat)
    (context : Context)
    (s : ParseState) :
    Locates P (fun n _ => Located P n)
      (Parse.expression n h precedence context) s := by
  induction n generalizing h precedence context s with
  | zero => exact tooDeep
  | succ n ih => exact expressionOver ih h precedence context s

end Locates

end ElixirReader
