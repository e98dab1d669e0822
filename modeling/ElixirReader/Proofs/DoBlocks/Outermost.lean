import ElixirReader.Proofs.DoBlocks.Exposed
import ElixirReader.Tree.Calling

/-
  This file shows that a do block belongs to the outermost call
  without parentheses around it. Arguments of such calls are read
  where no do blocks are admitted, and what stands open in them
  is read in the same context. Only parentheses give it up.

  Main declarations:
    * `Builds.suits_expression`
    * `carriesBlock_of_exposes`
-/

namespace ElixirReader

open Parse

variable {m n h : Nat}
variable {expr : ExpressionParser}
variable {levels : Levels}
variable {context : Context}

namespace Builds

------------------------------------------------------------
-- Operands
------------------------------------------------------------

theorem suits_anew
    {p : Parse Node}
    (hAnew : Builds m (Node.IsAnew Node.IsClear) p) :
    Builds m (Node.Suits context) p :=
  hAnew.mono fun _ hNode => sustains_suits.opens (.anew hNode)

/- Without parentheses, expressions start anew. -/
theorem suits_primary
    [∀ precedence context, Retains (expr precedence context)]
    (hExpr : ∀ precedence context,
      Builds 0 (Node.Suits context) (expr precedence context)) :
    Builds 0 (Node.Suits context) (Parse.primary expr context) := by
  constructor
  intro s hCount
  cases hRest : s.rest with
  | nil =>
      rw [Parse.primary, Parse.bind_apply, peek_of_nil hRest]
      exact (suits_anew (errorNode sustains_suits _)).result s hCount
  | cons l ls =>
      rw [Parse.primary, Parse.bind_apply, peek_of_cons hRest]
      have hKind : l.kind ≠ .opening .parenthesis := by
        intro hKind
        rw [hRest, countParentheses, List.countP_cons_of_pos
          (by simp [hKind])] at hCount
        exact Nat.not_succ_le_zero _ hCount
      exact ((primaryAt sustains_suits hExpr hKind).mono fun _ =>
        sustains_suits.opens).result s hCount

section Levels

variable [∀ height precedence context,
  Retains (levels height precedence context)]

theorem suits_suffixes
    {node : Node}
    (hLevels : ∀ i < h, ∀ precedence context,
      Builds m (Node.Suits context) (levels i precedence context))
    (hNode : node.Suits context) :
    Builds m (Node.Suits context)
      (Parse.suffixes levels context h node) := by
  induction h generalizing node with
  | zero =>
      apply bind_any
      intro ls
      cases suffixAhead? ls with
      | none => exact pure hNode
      | some _ => exact suits_anew (errorNode sustains_suits _)
  | succ h ih =>
      apply bind_any
      intro ls
      cases suffixAhead? ls with
      | none => exact pure hNode
      | some kind =>
          apply (withSuffix sustains_suits
            (hLevels h (Nat.lt_succ_self h)) node kind).bind
          intro larger hExtends
          exact ih (fun i hI => hLevels i (Nat.lt_succ_of_lt hI))
            (hExtends.suits hNode)

theorem suits_operand
    (hLevels : ∀ i ≤ h, ∀ precedence context,
      Builds 0 (Node.Suits context) (levels i precedence context)) :
    Builds 0 (Node.Suits context)
      (Parse.operand levels h context) := by
  have hExpr := hLevels h (Nat.le_refl h)
  have hSmaller : ∀ i < h, ∀ precedence context,
      Builds 0 (Node.Suits context) (levels i precedence context) :=
    fun i hI => hLevels i (Nat.le_of_lt hI)
  have hPrimary : Builds 0 (Node.Suits context)
      (Parse.primary (levels h) context) :=
    suits_primary hExpr
  apply bind_any
  intro next
  cases next with
  | none => exact suits_anew (errorNode sustains_suits _)
  | some l =>
      apply operandAt sustains_suits hExpr
        (fun _ => sustains_suits.opens) l
      · apply bind_any
        intro _
        apply hPrimary.bind
        intro operand hOperand
        exact suits_suffixes hSmaller
          (sustains_suits.opens (.unary _ _ hOperand))
      · apply hPrimary.bind
        intro node hNode
        exact suits_suffixes hSmaller hNode

------------------------------------------------------------
-- Expressions
------------------------------------------------------------

omit [∀ height precedence context,
  Retains (levels height precedence context)] in
theorem suits_joined
    {left right : Node}
    (operator : InfixOperator)
    (hLeft : left.Suits context)
    (hRight : right.Suits context) :
    Builds m (Node.Suits context)
      (Parse.joined operator left right) := by
  apply (joined sustains_suits context operator left hRight).mono
  rintro _ ⟨right', span, hRight', rfl⟩
  exact suits_binary _ _ _ hLeft hRight'

theorem suits_folds
    {left : Node}
    (precedence : Nat)
    (hLevels : ∀ i < h, ∀ precedence context,
      Builds m (Node.Suits context) (levels i precedence context))
    (hLeft : left.Suits context) :
    Builds m (Node.Suits context)
      (Parse.folds levels precedence context h left) := by
  induction h generalizing left with
  | zero =>
      apply bind_any
      intro next
      cases next with
      | none => exact pure hLeft
      | some i =>
          apply (suits_anew (errorNode sustains_suits _)).bind
          intro right hRight
          exact suits_joined i hLeft hRight
  | succ h ih =>
      apply bind_any
      intro next
      cases next with
      | none => exact pure hLeft
      | some i =>
          apply (hLevels h (Nat.lt_succ_self h) _ _).bind
          intro right hRight
          apply (suits_joined i hLeft hRight).bind
          intro larger hLarger
          exact ih (fun i hI => hLevels i (Nat.lt_succ_of_lt hI))
            hLarger

theorem suits_expressionOver
    (hLevels : ∀ i ≤ h, ∀ precedence context,
      Builds 0 (Node.Suits context) (levels i precedence context))
    (precedence : Nat) :
    Builds 0 (Node.Suits context)
      (Parse.expressionOver levels (h + 1) precedence context) := by
  apply bind_any
  intro _
  have hBody : Builds 0 (Node.Suits context) (do
      let left ← Parse.operand levels h context
      Parse.folds levels precedence context h left) := by
    apply (suits_operand hLevels).bind
    intro left hLeft
    exact suits_folds precedence
      (fun i hI => hLevels i (Nat.le_of_lt hI)) hLeft
  apply hBody.bind
  intro node hNode
  apply bind_any
  intro _
  exact pure hNode

end Levels

/- The context of an expression is that of what stands open in it. -/
theorem suits_expression
    (n h precedence : Nat)
    (context : Context) :
    Builds 0 (Node.Suits context)
      (expression n h precedence context) := by
  induction n generalizing h precedence context with
  | zero => exact suits_anew (errorNode sustains_suits _)
  | succ n ih =>
      cases h with
      | zero => exact suits_anew (errorNode sustains_suits _)
      | succ h => exact suits_expressionOver (fun i _ => ih i) _

end Builds

------------------------------------------------------------
-- Documents
------------------------------------------------------------

/-
  In the arguments of a call without parentheses, no call that
  stands open carries a do block, if there are no parentheses
  to enclose it in.
-/
theorem carriesBlock_of_exposes
    {tokens : List Token}
    {tree call argument node : Node}
    (hTokens : ∀ t ∈ tokens, t.kind ≠ .opening .parenthesis)
    (hTree : tree ∈ (parse tokens).1.expressions)
    (hCall : call ∈ tree.preorder)
    (hArgument : argument ∈ call.openArguments)
    (hExposes : argument.Exposes node) :
    node.carriesBlock = false := by
  have hCount :
      countParentheses (Lexeme.ofTokens tokens) ≤ 0 := by
    rw [Lexeme.ofTokens, countParentheses_ofTokensAfter]
    apply Nat.le_of_eq
    rw [List.countP_eq_zero]
    intro t hMember
    simpa using hTokens t hMember
  have hClear : AllThroughout Node.IsClear
      (parse tokens).1.expressions :=
    (Builds.statementList sustains_suits
      (Builds.suits_expression maxNesting maxHeight)).result
        (ParseState.start (Lexeme.ofTokens tokens)) hCount
  exact hClear tree hTree call hCall argument hArgument node hExposes

/- A do block is that of `if`, and there are more places for it. -/
theorem carriesBlock_of_exposes_nested :
    let tokens := (tokenize "if a b, -c[1] do d end").1
    (parse tokens).2 = [] ∧
      ∃ tree ∈ (parse tokens).1.expressions,
        tree.carriesBlock = true ∧
          ∃ argument ∈ tree.openArguments,
            ∃ node, argument.Exposes node ∧
              node.form.name = "Access" ∧
                ∃ subject, node.Exposes subject ∧
                  subject.form.name = "Identifier" ∧
                    subject.carriesBlock = false := by
  intro tokens
  have hTokens : ∀ t ∈ tokens, t.kind ≠ .opening .parenthesis := by
    decide
  have hTree : ∃ tree ∈ (parse tokens).1.expressions,
      tree.carriesBlock = true ∧
        ∃ argument ∈ tree.openArguments,
          ∃ node ∈ argument.form.exposed,
            node.form.name = "Access" ∧
              ∃ subject ∈ node.form.exposed,
                subject.form.name = "Identifier" := by
    decide +kernel
  obtain ⟨tree, hTree, hBlock, argument, hArgument, node, hNode,
    hAccess, subject, hSubject, hName⟩ := hTree
  refine ⟨by decide +kernel, tree, hTree, hBlock, argument,
    hArgument, node, .deeper hNode (.self node), hAccess,
    subject, .deeper hSubject (.self subject), hName, ?_⟩
  exact carriesBlock_of_exposes hTokens hTree
    (Node.mem_preorder tree) hArgument
    (.deeper hNode (.deeper hSubject (.self subject)))

end ElixirReader
