import ElixirReader.Proofs.Errors.Documents
import ElixirReader.Proofs.Lexer.Tiling
import ElixirReader.Proofs.Spans.Calls

/-
  This file shows that the trees of a source without errors
  are laminar: at every depth of nesting an expression lies in
  the lexemes that it is read from, and the lexemes lie in
  order because tokens tile the source.

  Main declarations:
    * `Proceeds.primary`
    * `Proceeds.suffixes`
    * `Proceeds.folds`
    * `orderly_expression`
    * `Tiles.sideBySide`
    * `laminar_parse`
-/

namespace ElixirReader

open Parse

variable {a k : Nat}
variable {l : Lexeme}
variable {ls : List Lexeme}
variable {s : ParseState}
variable {expr : ExpressionParser}
variable {context : Context}

namespace Proceeds

------------------------------------------------------------
-- Primary expressions
------------------------------------------------------------

theorem single
    {form : Form Node}
    (hRest : s.rest = l :: ls)
    (hNodes : form.nodes = [])
    (hForm : Node.isError ⟨form, l.span⟩ = false) :
    Proceeds (laid nodeOf s.reach) (Parse.single form l) s := by
  apply bind_skip_one hRest
  intro s₁ _ _ _ hTook
  exact pure (hTook.leaf hNodes hForm)

theorem unexpectedNode :
    Proceeds (laid nodeOf a)
      (do Parse.errorNode (← Parse.unexpected)) s := by
  rcases unexpected_apply s with ⟨fault, hEq⟩
  apply laid_of_containsError
  apply (errorNode fault).of_eq
  rw [Parse.bind_apply, hEq]

theorem wordOperand
    {w : Word}
    (hExpr : Orderly expr)
    (hRest : s.rest = l :: ls) :
    Proceeds (laid nodeOf s.reach) (Parse.wordOperand expr w l)
      s := by
  cases w with
  | «true» => exact single hRest rfl rfl
  | «false» => exact single hRest rfl rfl
  | nil => exact single hRest rfl rfl
  | fn => exact fn hExpr hRest
  | _ => exact unexpectedNode

theorem bracketOperand
    {b : Bracket}
    (hExpr : Orderly expr)
    (hRest : s.rest = l :: ls) :
    Proceeds (laid nodeOf s.reach) (Parse.bracketOperand expr b)
      s := by
  cases b with
  | parenthesis => exact parenthesized hExpr hRest
  | square =>
      exact container hExpr hRest .square
        fun _ _ => ⟨rfl, rfl⟩
  | curly =>
      exact container hExpr hRest .curly
        fun _ _ => ⟨rfl, rfl⟩
  | bits =>
      exact container hExpr hRest .bits
        fun _ _ => ⟨rfl, rfl⟩

theorem promoterOperand
    (hExpr : Orderly expr)
    (hRest : s.rest = l :: ls) :
    Proceeds (laid nodeOf s.reach)
      (Parse.promoterOperand expr context) s := by
  apply bind_rest
  split
  · rename_i hAhead
    exact keywords hExpr hAhead
  · apply (text hExpr hRest).bind
    rintro ⟨t, span⟩ s₁ _ _ hQuotes
    apply pure
    exact Holds.fits (f := .text t) hQuotes.holds rfl

theorem strayOperand
    (l : Lexeme) :
    Proceeds (laid nodeOf a) (Parse.strayOperand l) s := by
  rcases unexpected_apply s with ⟨fault, hEq⟩
  have hStray : Proceeds (laid nodeOf a)
      (do
        let node ← Parse.errorNode fault
        if !l.kind.isBoundary then
          Parse.skip 1
        return node) s := by
    apply (errorNode fault).bind
    intro node s₁ _ _ hError
    have hNode : ∀ s' : ParseState,
        Fits a [node] s'.reach :=
      fun s' => Fits.of_hasError ((hasError_nodeOf _).mpr hError)
    split
    · apply (skip 1).bind
      intro _ s₂ _ _ _
      exact pure (hNode s₂)
    · exact pure (hNode s₁)
  apply hStray.of_eq
  rw [Parse.strayOperand, Parse.bind_apply, hEq]

theorem primaryAt
    (hExpr : Orderly expr)
    (hRest : s.rest = l :: ls) :
    Proceeds (laid nodeOf s.reach)
      (Parse.primaryAt expr context l) s := by
  unfold Parse.primaryAt
  split
  · apply bind_skip_one hRest
    intro s₁ _ _ _ _
    apply poison.bind
    intro _ s₂ _ _ _
    exact pure (Fits.of_hasError
      ((hasError_nodeOf _).mpr (containsError_failure _ _)))
  · exact wordOperand hExpr hRest
  · exact single hRest rfl rfl
  · apply bind_skip_one hRest
    intro s₁ _ _ _ hTook
    exact identifier hExpr hTook.holds
  · exact character hRest
  · exact atom hExpr hRest
  · rename_i hKind
    apply keywords hExpr
    rw [hRest]
    simp [ElixirReader.keywordAhead, hKind]
  · exact promoterOperand hExpr hRest
  · exact promoterOperand hExpr hRest
  · exact sigil hExpr hRest
  · exact bracketOperand hExpr hRest
  · exact structOrMap hExpr hRest
  · split
    · exact number
    · exact strayOperand l

theorem primary
    (hExpr : Orderly expr) :
    Proceeds (laid nodeOf s.reach) (Parse.primary expr context)
      s := by
  apply bind_peek
  cases hRest : s.rest with
  | nil => exact laid_of_containsError (errorNode _)
  | cons l ls => exact primaryAt hExpr hRest

------------------------------------------------------------
-- Suffixes
------------------------------------------------------------

theorem withSuffix
    {node : Node}
    {kind : SuffixKind}
    (hExpr : Orderly expr)
    (hNode : Fits a [node] s.reach)
    (hAhead : suffixAhead? s.rest = some kind) :
    Proceeds (laid nodeOf a)
      (Parse.withSuffix expr context node kind) s := by
  cases hRest : s.rest with
  | nil =>
      rw [hRest] at hAhead
      cases hAhead
  | cons l ls =>
      cases kind with
      | dot => exact dotted hExpr hNode hRest
      | key => exact access hExpr hNode hRest

section Levels

variable {levels : Levels}
variable {height : Nat}

/- Every suffix makes a larger node that starts where it did. -/
theorem suffixes
    {node : Node}
    (hLevels : ∀ height, Orderly (levels height))
    (hNode : Fits a [node] s.reach) :
    Proceeds (laid nodeOf a)
      (Parse.suffixes levels context height node) s := by
  induction height generalizing s node with
  | zero =>
      apply bind_rest
      cases suffixAhead? s.rest with
      | none => exact pure hNode
      | some kind => exact laid_of_containsError (errorNode _)
  | succ height ih =>
      apply bind_rest
      cases hAhead : suffixAhead? s.rest with
      | none => exact pure hNode
      | some kind =>
          apply (withSuffix (hLevels height) hNode hAhead).bind
          intro larger s₁ _ _ hLarger
          exact ih hLarger

------------------------------------------------------------
-- Operands
------------------------------------------------------------

theorem unary
    (hExpr : Orderly expr)
    (hRest : s.rest = l :: ls)
    (precedence : Nat) :
    Proceeds (laid nodeOf s.reach)
      (Parse.unary expr precedence context l) s := by
  apply bind_skip_one hRest
  intro s₁ _ _ _ hTook
  apply skipLineEnds.bind
  intro _ s₂ _ hSkip _
  have hReach := hSkip.reach
  rw [hTook.reach_eq] at hReach
  apply (hExpr precedence context s₂).bind
  intro operand s₃ _ _ hOperand
  apply pure
  have hHolds := (Fits.holds hOperand).behind_mark hTook.le hReach
  exact Fits.mono
    (Holds.fits (f := .unary l.text operand) hHolds rfl)
    hTook.start (Nat.le_refl _)

theorem capture
    (hExpr : Orderly expr)
    (hRest : s.rest = l :: ls) :
    Proceeds (laid nodeOf s.reach)
      (Parse.capture expr context l) s := by
  apply bind_rest
  split
  · apply bind_skip_one hRest
    intro s₁ _ _ _ hTook
    apply number.bind
    intro index s₂ _ _ hIndex
    apply pure
    have hHolds := (Fits.holds hIndex).behind_mark hTook.le
      (Nat.le_of_eq hTook.reach_eq.symm)
    exact Fits.mono
      (Holds.fits (f := .unary l.text index) hHolds rfl)
      hTook.start (Nat.le_refl _)
  · exact unary hExpr hRest _

theorem moduleAttribute
    (hLevels : ∀ height, Orderly (levels height))
    (hRest : s.rest = l :: ls) :
    Proceeds (laid nodeOf s.reach)
      (Parse.moduleAttribute levels height context l) s := by
  apply bind_skip_one hRest
  intro s₁ _ _ _ hTook
  apply (primary (hLevels height)).bind
  intro operand s₂ _ _ hOperand
  have hHolds := (Fits.holds hOperand).behind_mark hTook.le
    (Nat.le_of_eq hTook.reach_eq.symm)
  apply suffixes hLevels
  exact Fits.mono
    (Holds.fits (f := .unary l.text operand) hHolds rfl)
    hTook.start (Nat.le_refl _)

theorem fullRange
    (hRest : s.rest = l :: ls) :
    Proceeds (laid nodeOf s.reach) (Parse.fullRange l) s := by
  apply bind_skip_one hRest
  intro s₁ _ _ _ hTook
  have hStart := hTook.start
  have hLe := hTook.le
  have hReach := hTook.reach_eq
  apply pure
  apply Fits.leaf (f := .call (.bare l.text) [] false none)
      rfl rfl <;>
    simp only [Suffix.bare, Span.start_merge, Span.stop_merge] <;>
    omega

theorem suffixed
    (hLevels : ∀ height, Orderly (levels height)) :
    Proceeds (laid nodeOf s.reach)
      (Parse.suffixed levels height context) s := by
  apply (primary (hLevels height)).bind
  intro node s₁ _ _ hNode
  exact suffixes hLevels hNode

theorem operandAt
    (hLevels : ∀ height, Orderly (levels height))
    (hRest : s.rest = l :: ls) :
    Proceeds (laid nodeOf s.reach)
      (Parse.operandAt levels height context l) s := by
  unfold Parse.operandAt
  split
  · exact unary (hLevels height) hRest _
  · exact unary (hLevels height) hRest _
  · exact unary (hLevels height) hRest _
  · exact unary (hLevels height) hRest _
  · exact capture (hLevels height) hRest
  · exact fullRange hRest
  · exact moduleAttribute hLevels hRest
  · exact suffixed hLevels

theorem operand
    (hLevels : ∀ height, Orderly (levels height)) :
    Proceeds (laid nodeOf s.reach)
      (Parse.operand levels height context) s := by
  apply bind_peek
  cases hRest : s.rest with
  | nil => exact laid_of_containsError (errorNode _)
  | cons l ls => exact operandAt hLevels hRest

------------------------------------------------------------
-- Operators between operands
------------------------------------------------------------

theorem joined
    {left right : Node}
    {c : Nat}
    (hLeft : Fits a [left] c)
    (hRight : Fits c [right] s.reach)
    (operator : InfixOperator) :
    Proceeds (laid nodeOf a) (Parse.joined operator left right)
      s := by
  have hChecked : Proceeds (laid nodeOf c)
      (Parse.checkStep operator left right) s := by
    unfold Parse.checkStep
    split
    · exact laid_of_containsError (failure _ _ _)
    · exact pure hRight
  apply hChecked.bind
  intro right' s₁ _ _ hRight'
  apply pure
  exact Holds.fits
    (f := .binary operator.name left right' operator.span)
    (hLeft.holds_before (Fits.holds hRight')) rfl

theorem eatInfix
    (precedence : Nat) :
    Proceeds anything (Parse.eatInfix precedence) s := by
  apply bind_rest
  split
  · exact pure trivial
  · split
    · exact pure trivial
    · apply (skip _).bind
      intro _ s₁ _ _ _
      apply skipLineEnds.bind
      intro _ s₂ _ _ _
      exact pure trivial

theorem folds
    {left : Node}
    (hLevels : ∀ height, Orderly (levels height))
    (precedence : Nat)
    (hLeft : Fits a [left] s.reach) :
    Proceeds (laid nodeOf a)
      (Parse.folds levels precedence context height left) s := by
  induction height generalizing s left with
  | zero =>
      apply (eatInfix precedence).bind
      intro found s₁ _ hInfix _
      have hBefore : Fits a [left] s₁.reach :=
        hLeft.mono (Nat.le_refl a) hInfix.reach
      cases found with
      | none => exact pure hBefore
      | some i =>
          have hDeep : Proceeds (laid nodeOf s₁.reach)
            Parse.tooDeep s₁ := laid_of_containsError (errorNode _)
          apply hDeep.bind
          intro right s₂ _ _ hRight
          exact joined hBefore hRight i
  | succ height ih =>
      apply (eatInfix precedence).bind
      intro found s₁ _ hInfix _
      have hBefore : Fits a [left] s₁.reach :=
        hLeft.mono (Nat.le_refl a) hInfix.reach
      cases found with
      | none => exact pure hBefore
      | some i =>
          apply (hLevels height _ context s₁).bind
          intro right s₂ _ _ hRight
          apply (joined hBefore hRight i).bind
          intro larger s₃ _ _ hLarger
          exact ih hLarger

------------------------------------------------------------
-- Expressions
------------------------------------------------------------

theorem expressionOver
    (hLevels : ∀ height, Orderly (levels height)) :
    Orderly (Parse.expressionOver levels height) := by
  intro precedence context s
  cases height with
  | zero => exact laid_of_containsError (errorNode _)
  | succ height =>
      apply nested
        (P := fun (n : Node) b => Fits s.reach [n] b)
      have hOperand : Proceeds (laid nodeOf s.enter.reach)
          (Parse.operand levels height context) s.enter :=
        operand hLevels
      apply hOperand.bind
      intro left s₁ _ _ hLeft
      exact folds hLevels precedence hLeft

end Levels

end Proceeds

/- Expressions go on in order at every depth of nesting. -/
theorem orderly_expression
    (n height : Nat) :
    Orderly (expression n height) := by
  induction n generalizing height with
  | zero =>
      intro precedence context s
      exact Proceeds.laid_of_containsError
        (Proceeds.errorNode _)
  | succ n ih => exact Proceeds.expressionOver ih

------------------------------------------------------------
-- Sources
------------------------------------------------------------

/- Tokens that tile a source lie side by side. -/
theorem Tiles.sideBySide
    {source : String}
    {ts : List Token}
    (hTiles : Tiles source a ts)
    (spaced : Bool) :
    ∃ b, SideBySide a
      ((Lexeme.ofTokensAfter spaced ts).map Lexeme.span) b := by
  induction hTiles generalizing spaced with
  | none => exact ⟨_, Nat.le_refl _⟩
  | token t ts _ hSpan _ _ _ _ ih =>
      rw [Lexeme.ofTokensAfter]
      split
      · rcases ih true with ⟨b, hMore⟩
        exact ⟨b, hMore.mono (Nat.le_of_lt hSpan)
          (Nat.le_refl _)⟩
      · rcases ih false with ⟨b, hMore⟩
        exact ⟨b, Nat.le_refl _, Nat.le_of_lt hSpan, hMore⟩

/- The parser starts before the lexemes of a source. -/
theorem placed_start
    (source : String) :
    (ParseState.start
      (Lexeme.ofTokens (tokenize source).1)).Placed := by
  obtain ⟨_, hTiles⟩ := exists_tiles_tokenize source
  rcases hTiles.sideBySide false with ⟨b, hSpans⟩
  exact ⟨b, hSpans.mono (Nat.zero_le _) (Nat.le_refl _)⟩

/-
  In a source without errors every node holds its children:
  their spans lie inside of its own, are disjoint, and come in
  the order of the children.
-/
theorem laminar_parse
    (source : String)
    (n m : Node)
    (hLexical : (tokenize source).2 = [])
    (hSyntactic : (parse (tokenize source).1).2 = [])
    (hRoot :
      n ∈ (parse (tokenize source).1).1.expressions)
    (hNode : m ∈ n.preorder) :
    (∀ c ∈ m.children,
        m.span.start ≤ c.span.start ∧
          c.span.start ≤ c.span.stop ∧
          c.span.stop ≤ m.span.stop) ∧
      (m.children.map Node.span).Pairwise
        fun x y => x.stop ≤ y.start := by
  have hNone :
      ¬ HasError (parse (tokenize source).1).1.expressions := by
    rcases (reads_parse _).calm rfl (calm_start hLexical)
      hSyntactic with ⟨_, _, hSilent⟩
    exact fun hError => hasError_nil (hSilent hError)
  have hLaid := (Proceeds.statements
    (orderly_expression maxNesting maxHeight)
    (placed_start source)).2 hNone
  have hSpans := hLaid.laminar n hRoot m hNode
  refine ⟨?_, hSpans.pairwise⟩
  intro c hChild
  exact hSpans.of_mem (List.mem_map_of_mem hChild)

/- A call holds its arguments and the body of its do block. -/
theorem laminar_parse_call :
    (tokenize "f a, k: (b; c) do d end").2 = [] ∧
      (parse (tokenize "f a, k: (b; c) do d end").1).2 = [] ∧
      ∃ n ∈ (parse (tokenize
          "f a, k: (b; c) do d end").1).1.expressions,
        ∃ m ∈ n.preorder, m.children.length = 3 ∧
          (∀ c ∈ m.children,
            m.span.start ≤ c.span.start ∧
              c.span.start ≤ c.span.stop ∧
              c.span.stop ≤ m.span.stop) ∧
          (m.children.map Node.span).Pairwise
            fun x y => x.stop ≤ y.start := by
  have hLexical : (tokenize "f a, k: (b; c) do d end").2 = [] := by
    decide
  have hSyntactic :
      (parse (tokenize "f a, k: (b; c) do d end").1).2 = [] := by
    decide +kernel
  have hAny :
      (parse (tokenize "f a, k: (b; c) do d end").1).1.expressions.any
        (fun n => n.preorder.any fun m =>
          m.children.length == 3) = true := by
    decide +kernel
  rcases List.any_eq_true.mp hAny with ⟨n, hRoot, hSome⟩
  rcases List.any_eq_true.mp hSome with ⟨m, hNode, hThree⟩
  exact ⟨hLexical, hSyntactic, n, hRoot, m, hNode,
    eq_of_beq hThree,
    laminar_parse "f a, k: (b; c) do d end" n m hLexical hSyntactic
      hRoot hNode⟩

end ElixirReader
