import ElixirReader.Proofs.Heights.Stems

/-
  This file bounds how far the trees of the parser reach to
  the left. An expression extends what it starts with by one
  level for each suffix, and then by one for each operator;
  both are counted from the height at which the expression
  starts. What it starts with may be an expression in
  parentheses, which has been counted in the same way and
  given up again. So it is not the height of a tree that the
  limit keeps in check, but that of each run of suffixes or
  operators, and the bound depends on how many parentheses
  there can be inside of one another.

  Key definitions include:
    * `maxStems`
    * `counts`

  Main declarations:
    * `Builds.primary`
    * `Builds.suffixes`
    * `Builds.folds`
    * `Builds.expressionOver`
    * `builds_expression`
    * `length_stems_le`
    * `exists_lt_length_stems`
-/

namespace ElixirReader

open Parse

namespace Builds

variable {j k m n h : Nat}
variable {expr : ExpressionParser}
variable {context : Context}

------------------------------------------------------------
-- Primary expressions
------------------------------------------------------------

/-
  An expression in parentheses is as large as expressions are
  with one parenthesis less; all others start anew.
-/
theorem primary
    [∀ precedence context, Retains (expr precedence context)]
    (hExpr : ∀ precedence context,
      Builds m (Node.IsLow k) (expr precedence context))
    (hLe : j ≤ k)
    (hInner : ∀ i, m = i + 1 → ∀ precedence context,
      Builds i (Node.IsLow j) (expr precedence context)) :
    Builds m (Node.Leans j k) (Parse.primary expr context) := by
  have hV := sustains_isLow k
  constructor
  intro s hCount
  cases hRest : s.rest with
  | nil =>
      rw [Parse.primary, Parse.bind_apply, peek_of_nil hRest]
      have hError := (errorNode hV .unexpectedEnd).result s hCount
      exact hError.leans
  | cons l ls =>
      rw [Parse.primary, Parse.bind_apply, peek_of_cons hRest]
      by_cases hKind : l.kind = .opening .parenthesis
      · have hTail : countParentheses ls + 1 ≤ m := by
          rw [hRest] at hCount
          simpa [countParentheses, hKind] using hCount
        have hM : m = m - 1 + 1 := by omega
        have hAdvance : countParentheses (s.advance 1).rest ≤
            m - 1 := by
          change countParentheses (s.rest.drop 1) ≤ m - 1
          rw [hRest, List.drop_one, List.tail_cons]
          omega
        have hBracket : Parse.primaryAt expr context l =
            Parse.parenthesized expr := by
          unfold Parse.primaryAt
          rw [hKind]
          rfl
        have hLow : Node.IsLow j _ :=
          (parenthesized (sustains_isLow j) (hInner (m - 1) hM)
            s.currentSpan).result _ hAdvance
        simp only [hBracket]
        exact ⟨hLow.leans.length_le, hLow.mono hLe⟩
      · exact ((primaryAt hV hExpr hKind).mono fun _ =>
          Opens.leans).result s hCount

------------------------------------------------------------
-- Levels
------------------------------------------------------------

section Levels

variable {levels : Levels}
variable [∀ height precedence context,
  Retains (levels height precedence context)]

/- Each suffix takes a level, and the last one is not read. -/
theorem suffixes
    {node : Node}
    (hLevels : ∀ i < h, ∀ precedence context,
      Builds m (Node.IsLow k) (levels i precedence context))
    (hNode : node.Leans j k)
    (hLe : j + h ≤ k) :
    Builds m (Node.Leans (j + h) k)
      (Parse.suffixes levels context h node) := by
  induction h generalizing j node with
  | zero =>
      apply bind_any
      intro ls
      cases suffixAhead? ls with
      | none => exact pure hNode
      | some _ =>
          exact (errorNode (sustains_isLow k) _).mono fun _ =>
            Node.IsAnew.leans
  | succ h ih =>
      apply bind_any
      intro ls
      cases suffixAhead? ls with
      | none => exact pure (hNode.mono (Nat.le_add_right j _))
      | some kind =>
          apply (withSuffix (sustains_isLow k)
            (hLevels h (Nat.lt_succ_self h)) node kind).bind
          intro larger hExtends
          have hLarger := hExtends.leans hNode (by omega)
          have hSame : j + 1 + h = j + (h + 1) := by omega
          rw [← hSame]
          exact ih (fun i hI => hLevels i (Nat.lt_succ_of_lt hI))
            hLarger (by omega)

section Operand

variable (hLevels : ∀ i ≤ h, ∀ precedence context,
  Builds m (Node.IsLow k) (levels i precedence context))
variable (hInner : ∀ i, m = i + 1 → ∀ precedence context,
  Builds i (Node.IsLow j) (levels h precedence context))
variable (hLe : j + h ≤ k)

include hLevels hInner hLe

theorem moduleAttribute
    (operator : Lexeme) :
    Builds m (Node.Leans (j + h) k)
      (Parse.moduleAttribute levels h context operator) := by
  apply bind_any
  intro _
  apply (primary (hLevels h (Nat.le_refl h)) (by omega)
    hInner).bind
  intro operand hOperand
  apply suffixes (fun i hI => hLevels i (Nat.le_of_lt hI)) _ hLe
  have hUnary : Opens (fun n => n.stems.length ≤ k)
      (fun _ => Node.IsLow k) context
      ⟨.unary operator.text operand,
        operator.span.merge operand.span⟩ :=
    .unary _ _ hOperand.low
  exact hUnary.leans

theorem suffixed :
    Builds m (Node.Leans (j + h) k)
      (Parse.suffixed levels h context) := by
  apply (primary (hLevels h (Nat.le_refl h)) (by omega)
    hInner).bind
  intro node hNode
  exact suffixes (fun i hI => hLevels i (Nat.le_of_lt hI)) hNode hLe

theorem operand :
    Builds m (Node.Leans (j + h) k)
      (Parse.operand levels h context) := by
  have hV := sustains_isLow k
  apply bind_any
  intro next
  cases next with
  | none =>
      exact (errorNode hV _).mono fun _ => Node.IsAnew.leans
  | some l =>
      exact operandAt hV (hLevels h (Nat.le_refl h))
        (fun _ => Opens.leans) l (moduleAttribute hLevels hInner hLe l)
        (suffixed hLevels hInner hLe)

end Operand

------------------------------------------------------------
-- Operators between operands
------------------------------------------------------------

omit [∀ height precedence context,
  Retains (levels height precedence context)] in
theorem leans_joined
    {left right : Node}
    (operator : InfixOperator)
    (hLeft : left.Leans j k)
    (hRight : right.IsLow k)
    (hLe : j + 1 ≤ k) :
    Builds m (Node.Leans (j + 1) k)
      (Parse.joined operator left right) := by
  apply (joined (sustains_isLow k) .statement operator left
    hRight).mono
  rintro _ ⟨right', span, hRight', rfl⟩
  exact Node.leans_succ (f := .binary operator.name left right'
    operator.span) span rfl hLeft hLe
      (List.forall_mem_cons.mpr
        ⟨hLeft.low, List.forall_mem_singleton.mpr hRight'⟩)

/- Each operator takes a level, and one more finds none left. -/
theorem folds
    {left : Node}
    (precedence : Nat)
    (hLevels : ∀ i < h, ∀ precedence context,
      Builds m (Node.IsLow k) (levels i precedence context))
    (hLeft : left.Leans j k)
    (hLe : j + h + 1 ≤ k) :
    Builds m (Node.Leans (j + h + 1) k)
      (Parse.folds levels precedence context h left) := by
  induction h generalizing j left with
  | zero =>
      apply bind_any
      intro next
      cases next with
      | none => exact pure (hLeft.mono (Nat.le_succ j))
      | some i =>
          apply (errorNode (sustains_isLow k) _).bind
          intro right hRight
          exact leans_joined i hLeft hRight.all hLe
  | succ h ih =>
      apply bind_any
      intro next
      cases next with
      | none => exact pure (hLeft.mono (by omega))
      | some i =>
          apply (hLevels h (Nat.lt_succ_self h) _ _).bind
          intro right hRight
          apply (leans_joined i hLeft hRight (by omega)).bind
          intro larger hLarger
          have hSame : j + 1 + h + 1 = j + (h + 1) + 1 := by omega
          rw [← hSame]
          exact ih (fun i hI => hLevels i (Nat.lt_succ_of_lt hI))
            hLarger (by omega)

------------------------------------------------------------
-- Expressions
------------------------------------------------------------

/-
  What an expression starts with has `j` stems at most. With
  `h` levels left, it gets one more for each suffix and for
  each operator, and one for the operator that is one too many.
-/
theorem expressionOver
    (hLevels : ∀ i ≤ h, ∀ precedence context,
      Builds m (Node.IsLow k) (levels i precedence context))
    (hInner : ∀ i, m = i + 1 → ∀ precedence context,
      Builds i (Node.IsLow j) (levels h precedence context))
    (hLe : j + h + h + 1 ≤ k)
    (precedence : Nat) :
    Builds m (Node.IsLow k)
      (Parse.expressionOver levels (h + 1) precedence context) := by
  apply bind_any
  intro _
  have hBody : Builds m (Node.Leans (j + h + h + 1) k) (do
      let left ← Parse.operand levels h context
      Parse.folds levels precedence context h left) := by
    apply (operand hLevels hInner (by omega)).bind
    intro left hLeft
    exact folds precedence
      (fun i hI => hLevels i (Nat.le_of_lt hI)) hLeft hLe
  apply hBody.bind
  intro node hNode
  apply bind_any
  intro _
  exact pure hNode.low

end Levels

/- Statements extend nothing. -/
theorem statements
    {stop : Kind → Bool}
    [∀ precedence context, Retains (expr precedence context)]
    (hExpr : ∀ precedence context,
      Builds m (Node.IsLow k) (expr precedence context)) :
    Builds m (AreLow k) (Parse.statements expr stop) :=
  statementList (sustains_isLow k) hExpr

end Builds

variable {h h' k m n n' : Nat}

------------------------------------------------------------
-- Bounds
------------------------------------------------------------

/-
  How many stems an expression has at most that starts with an
  expression in parentheses, which again starts with one, and
  so on, `n` times. The limit leaves one level less to each of
  them.
-/
def maxStems : Nat → Nat → Nat
| 0, _ => 0
| _ + 1, 0 => 0
| n + 1, h + 1 => maxStems n h + 2 * h + 1

theorem maxStems_mono
    (hNesting : n ≤ n')
    (hHeight : h ≤ h') :
    maxStems n h ≤ maxStems n' h' := by
  induction n generalizing n' h h' with
  | zero => exact Nat.zero_le _
  | succ n ih =>
      obtain ⟨n', rfl⟩ := Nat.exists_eq_add_of_lt hNesting
      cases h with
      | zero => exact Nat.zero_le _
      | succ h =>
          obtain ⟨h', rfl⟩ := Nat.exists_eq_add_of_lt hHeight
          have hLess : maxStems n h ≤ maxStems (n + n') (h + h') :=
            ih (Nat.le_add_right n n') (Nat.le_add_right h h')
          rw [maxStems, maxStems]
          omega

/- As a sum of odd numbers, the bound is a difference of squares. -/
theorem maxStems_eq
    (hLe : n ≤ h) :
    maxStems n h = n * (2 * h - n) := by
  induction n generalizing h with
  | zero => rw [maxStems, Nat.zero_mul]
  | succ n ih =>
      obtain ⟨h, rfl⟩ := Nat.exists_eq_add_of_lt hLe
      have hBefore := ih (Nat.le_add_right n h)
      have hLeft : 2 * (n + h) - n = n + 2 * h := by omega
      have hRight : 2 * (n + h + 1) - (n + 1) = n + 2 * h + 1 := by
        omega
      rw [hLeft] at hBefore
      rw [maxStems, hBefore, hRight, Nat.add_mul n 1,
        Nat.mul_add_one, Nat.one_mul]
      omega

/- Behind a parenthesis, there is one less of them. -/
theorem builds_expression
    (n h precedence : Nat)
    (context : Context) :
    Builds m (Node.IsLow (maxStems (min n (m + 1)) h))
      (expression n h precedence context) := by
  induction n generalizing m h precedence context with
  | zero =>
      exact (Builds.errorNode (sustains_isLow _) _).mono fun _ hE =>
        hE.all
  | succ n ih =>
      cases h with
      | zero =>
          exact (Builds.errorNode (sustains_isLow _) _).mono fun _ hE =>
            hE.all
      | succ h =>
          have hMin : min (n + 1) (m + 1) = min n m + 1 := by omega
          rw [hMin]
          apply Builds.expressionOver
            (j := maxStems (min n m) h) (h := h)
          · intro i hI precedence context
            apply (ih i precedence context).mono
            intro node hNode
            exact hNode.mono
              (maxStems_mono (by omega) (Nat.le_succ_of_le hI))
          · rintro i rfl precedence context
            exact ih h precedence context
          · rw [maxStems]
            omega

------------------------------------------------------------
-- Documents
------------------------------------------------------------

/-
  How many expressions can count their levels inside of one
  another: one outside of all parentheses, and one in each.
-/
def counts
    (tokens : List Token) : Nat :=
  min maxNesting
    (tokens.countP (·.kind == .opening .parenthesis) + 1)

/- A name with `i` suffixes, and with `j` operators behind that. -/
def chained
    (i j : Nat) : List Token :=
  [⟨.identifier, "a", Span.none⟩] ++
    (List.replicate i
      [⟨.dot, ".", Span.none⟩, ⟨.identifier, "b", Span.none⟩]).flatten ++
    (List.replicate j
      [⟨.operator .addition, "+", Span.none⟩,
        ⟨.identifier, "x", Span.none⟩]).flatten

/-
  The levels that a tree gets are limited for each expression
  on its own, for suffixes and operators apart.
-/
theorem length_stems_le
    {tokens : List Token}
    {tree node : Node}
    (hTree : tree ∈ (parse tokens).1.expressions)
    (hNode : node ∈ tree.preorder) :
    node.stems.length ≤
      counts tokens * (2 * maxHeight - counts tokens) := by
  have hLow : AreLow (maxStems (counts tokens) maxHeight)
      (parse tokens).1.expressions := by
    apply (Builds.statements
      (m := tokens.countP (·.kind == .opening .parenthesis))
      (builds_expression maxNesting maxHeight)).result
    exact Nat.le_of_eq (countParentheses_ofTokensAfter false tokens)
  have hCounts : counts tokens ≤ maxHeight :=
    Nat.le_trans (Nat.min_le_left _ _) (by decide)
  rw [← maxStems_eq hCounts]
  exact hLow tree hTree node hNode

/- The bound there is 255. -/
theorem length_stems_le_chained :
    ∃ tree ∈ (parse (chained 127 126)).1.expressions,
      tree.stems.length = 253 ∧
        tree.stems.length ≤ counts (chained 127 126) *
          (2 * maxHeight - counts (chained 127 126)) := by
  have hTree : ∃ tree ∈ (parse (chained 127 126)).1.expressions,
      tree.stems.length = 253 := by
    decide +kernel
  obtain ⟨tree, hTree, hLength⟩ := hTree
  exact ⟨tree, hTree, hLength,
    length_stems_le hTree (Node.mem_preorder tree)⟩

/- No parentheses are needed to use the limit twice. -/
theorem exists_lt_length_stems :
    (parse (chained 127 126)).2 = [] ∧
      ∃ tree ∈ (parse (chained 127 126)).1.expressions,
        ∃ node ∈ tree.preorder, maxHeight < node.stems.length := by
  decide +kernel

end ElixirReader
