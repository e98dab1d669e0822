import ElixirReader.Proofs.Parser.Expressions

/-
  This file shows that every list of tokens is parsed to its
  end. No loop of the parser is ever given up at its bound,
  every statement takes a lexeme that separates no statements,
  and expressions are nested no deeper than allowed.

  Key definitions include:
    * `isTopLevelEnd`
    * `topLevelExpression`
    * `isStatementPart`
    * `countParts`

  Main declarations:
    * `length_statementsFor_le`
    * `rest_statementsFor`
    * `parse_consumes_all`
-/

namespace ElixirReader

open Parse

variable {n k : Nat}
variable {s : ParseState}
variable {expr : ExpressionParser}

/- Outside of all constructs, statements stop at no kind. -/
def isTopLevelEnd
    (_ : Kind) : Bool :=
  false

/- The parser that statements outside of all constructs use. -/
def topLevelExpression : ExpressionParser :=
  expression maxNesting maxHeight

theorem sound_topLevelExpression :
    Sound maxNesting topLevelExpression :=
  sound_expression maxNesting maxHeight

/- The kinds of lexemes that count as parts of statements. -/
def isStatementPart
    (kind : Kind) : Bool :=
  !kind.isTrivia && !isSeparator kind

------------------------------------------------------------
-- The number of statements
------------------------------------------------------------

/- The lexemes that separate no statements. -/
def countParts
    (ls : List Lexeme) : Nat :=
  ls.countP (fun l => !isSeparator l.kind)

/- A statement takes a lexeme that separates no statements. -/
theorem countParts_statement
    (hExpr : Sound n expr)
    (hStarts : Starts isTopLevelEnd s.rest) :
    countParts (statement expr isTopLevelEnd s).2.rest <
      countParts s.rest := by
  rcases moves_statement hExpr hStarts with
    ⟨⟨taken, hMoves⟩, hLess⟩
  have hLength := hMoves.length_rest
  rw [hMoves.rest] at hStarts ⊢
  cases taken with
  | nil =>
      rw [List.length_nil] at hLength
      omega
  | cons l taken =>
      have hPart : isSeparator l.kind = false := by
        change (isSeparator l.kind || false) = false at hStarts
        simpa using hStarts
      unfold countParts
      rw [List.cons_append, List.countP_cons, List.countP_append]
      simp only [hPart, Bool.not_false, if_true]
      omega

theorem countParts_skipSeparators
    (s : ParseState) :
    countParts (skipSeparators s).2.rest ≤
      countParts s.rest := by
  have hMoves := Steady.advance 0
    (runLength isSeparator s.rest) s
  unfold countParts
  rw [hMoves.rest, List.countP_append]
  exact Nat.le_add_left _ _

/- There are no more statements than lexemes to be parts of them. -/
theorem length_statementsFor_le
    (hExpr : Sound n expr) :
    (statementsFor expr isTopLevelEnd k s).1.length +
        countParts
          (statementsFor expr isTopLevelEnd k s).2.rest ≤
      countParts s.rest := by
  induction k generalizing s with
  | zero => exact Nat.le_of_eq (Nat.zero_add _)
  | succ k ih =>
      have hSkip := countParts_skipSeparators s
      have hStarts := @starts_skipSeparators s isTopLevelEnd
      rw [statementsFor_succ]
      generalize (skipSeparators s).2 = s₁ at *
      cases hEnds : endsAt isTopLevelEnd s₁.rest.head? with
      | true =>
          rw [if_pos rfl]
          change 0 + countParts s₁.rest ≤ _
          omega
      | false =>
          have hLess := countParts_statement hExpr
            (hStarts hEnds)
          have hLater :=
            @ih (statement expr isTopLevelEnd s₁).2
          rw [if_neg Bool.false_ne_true]
          change (_ :: (statementsFor expr isTopLevelEnd k
            (statement expr isTopLevelEnd s₁).2).1).length +
            countParts (statementsFor expr isTopLevelEnd k
              (statement expr isTopLevelEnd s₁).2).2.rest ≤ _
          rw [List.length_cons]
          omega

/- Statements that stop at no kind take all lexemes. -/
theorem rest_statementsFor
    (hExpr : Sound n expr)
    (hBound : s.rest.length < k) :
    (statementsFor expr isTopLevelEnd k s).2.rest = [] := by
  have hEnds :
      endsAt isTopLevelEnd
        (statementsFor expr isTopLevelEnd k s).2.rest.head? =
          true :=
    endsAt_statementsFor hExpr hBound
  cases hRest : (statementsFor expr isTopLevelEnd k s).2.rest with
  | nil => rfl
  | cons l ls =>
      rw [hRest] at hEnds
      cases hEnds

------------------------------------------------------------
-- Documents
------------------------------------------------------------

theorem countParts_ofTokensAfter
    (spaced : Bool)
    (tokens : List Token) :
    countParts (Lexeme.ofTokensAfter spaced tokens) =
      tokens.countP (fun t => isStatementPart t.kind) := by
  induction tokens generalizing spaced with
  | nil => rfl
  | cons t ts ih =>
      unfold countParts at ih ⊢
      cases hTrivia : t.kind.isTrivia with
      | true =>
          simp [Lexeme.ofTokensAfter, isStatementPart, hTrivia,
            ih]
      | false =>
          simp [Lexeme.ofTokensAfter, isStatementPart, hTrivia,
            ih, List.countP_cons]

/- What the statements of a document do to the state. -/
theorem moves_parseLexemes
    (lexemes : List Lexeme) :
    ∃ taken, Moves maxNesting taken (ParseState.start lexemes)
      (parseLexemes lexemes).2 := by
  have hStatements :
      Walk .any maxNesting true
        (statements topLevelExpression isTopLevelEnd)
        (statements topLevelExpression isTopLevelEnd)
        (ParseState.start lexemes) :=
    Walk.statements sound_topLevelExpression
  exact hStatements.moves

/- Every round of the loop over statements takes a lexeme. -/
theorem exists_taken_statement
    (s : ParseState)
    (hEnds :
      endsAt isTopLevelEnd (skipSeparators s).2.rest.head? =
        false) :
    ∃ taken, taken ≠ [] ∧
      s.rest = taken ++
        (statement topLevelExpression isTopLevelEnd
          (skipSeparators s).2).2.rest := by
  have hSkip := Steady.advance maxNesting
    (runLength isSeparator s.rest) s
  have hStatement := moves_statement sound_topLevelExpression
    (starts_skipSeparators hEnds)
  rcases hStatement with ⟨⟨taken, hTaken⟩, hLess⟩
  refine ⟨_, ?_, (hSkip.toMoves.trans hTaken).rest⟩
  intro hNil
  rw [(List.append_eq_nil_iff.mp hNil).2] at hTaken
  rw [hTaken.length_rest, List.length_nil] at hLess
  omega

/- A document has no more expressions than parts of them. -/
theorem length_parseLexemes_le
    (tokens : List Token) :
    (parseLexemes (Lexeme.ofTokens tokens)).1.length ≤
      tokens.countP (fun t => isStatementPart t.kind) := by
  have hLength := @length_statementsFor_le maxNesting
    ((Lexeme.ofTokens tokens).length + 1)
    (ParseState.start (Lexeme.ofTokens tokens))
    topLevelExpression sound_topLevelExpression
  have hParts := countParts_ofTokensAfter false tokens
  change _ ≤ countParts (Lexeme.ofTokens tokens) at hLength
  change countParts (Lexeme.ofTokens tokens) = _ at hParts
  rw [hParts] at hLength
  exact Nat.le_trans (Nat.le_add_right _ _) hLength

/-
  Whatever the tokens, parsing ends, with no lexeme left and
  no loop given up at its bound. At no time are more
  expressions parsed inside of one another than allowed. The
  document has no more expressions than there are tokens that
  may be parts of them, since every round of the loop over its
  statements takes some.
-/
theorem parse_consumes_all
    (tokens : List Token) :
    (parseLexemes (Lexeme.ofTokens tokens)).2.rest = [] ∧
      (parseLexemes (Lexeme.ofTokens tokens)).2.cutShort =
        false ∧
      (parseLexemes (Lexeme.ofTokens tokens)).2.deepest ≤
        maxNesting ∧
      (parse tokens).1.expressions.length ≤
        tokens.countP (fun t => isStatementPart t.kind) ∧
      ∀ s : ParseState,
        endsAt isTopLevelEnd (skipSeparators s).2.rest.head? =
            false →
          ∃ taken, taken ≠ [] ∧
            s.rest = taken ++
              (statement topLevelExpression isTopLevelEnd
                (skipSeparators s).2).2.rest := by
  have hBound := Nat.lt_succ_self (Lexeme.ofTokens tokens).length
  rcases moves_parseLexemes (Lexeme.ofTokens tokens) with
    ⟨all, hMoves⟩
  refine ⟨?_, hMoves.cutShort, ?_,
    length_parseLexemes_le tokens, exists_taken_statement⟩
  · exact rest_statementsFor (s := ParseState.start
      (Lexeme.ofTokens tokens)) sound_topLevelExpression hBound
  · have hDeep := hMoves.deepest
    change _ ≤ max 0 (0 + maxNesting) at hDeep
    omega

end ElixirReader
