import ElixirReader.Analysis.Basic
import ElixirReader.Proofs.Lexer.Positions
import ElixirReader.Proofs.Parser.Termination

/-
  This file proves that all ways to read a source agree: an
  analysis that nobody stops has the tokens, the tree, the
  term and the errors that lexing, parsing and quoting have
  one by one. An analysis that was stopped before it starts
  has nothing, not even for an empty source.

  Main declarations:
    * `expressionUnless_false`
    * `parseUnless_false`
    * `parseUnless_true`
    * `analyze_eq`
-/

namespace ElixirReader

namespace Parse

------------------------------------------------------------
-- Parsers that nobody stops
------------------------------------------------------------

theorem expressionUnless_false
    (n : Nat) :
    expressionUnless false n = expression n := by
  induction n with
  | zero => rfl
  | succ n ih =>
      unfold expressionUnless expression
      rw [ih]
      rfl

theorem statementsUnlessFor_false
    (expr : ExpressionParser)
    (stop : Kind → Bool)
    (n : Nat) :
    statementsUnlessFor false expr stop n =
      statementsFor expr stop n := by
  induction n with
  | zero => rfl
  | succ n ih =>
      unfold statementsUnlessFor statementsFor
      rw [ih]
      rfl

theorem statementsUnless_false
    (expr : ExpressionParser)
    (stop : Kind → Bool) :
    statementsUnless false expr stop = statements expr stop := by
  unfold statementsUnless statements
  simp only [statementsUnlessFor_false]

------------------------------------------------------------
-- Parsers that are stopped
------------------------------------------------------------

/-
  The first look finds the stop, wherever the parser stands,
  and then there is no statement to be parsed.
-/
theorem halted_statementsUnless_true
    (expr : ExpressionParser)
    (stop : Kind → Bool)
    (s : ParseState) :
    (statementsUnless true expr stop s).1 = [] ∧
      (statementsUnless true expr stop s).2.rest = [] ∧
      (statementsUnless true expr stop s).2.halted = true := by
  have hOne : ∀ (n : Nat) (s : ParseState),
      statementsUnlessFor true expr stop (n + 1) s =
        ([], ParseState.advance
          { s with rest := [], halted := true } 0) :=
    fun _ _ => rfl
  have hAll :
      statementsUnless true expr stop s =
        isolated (statementsUnlessFor true expr stop
          (s.rest.length + 1)) s :=
    rfl
  rw [hAll, isolated_apply, hOne]
  exact ⟨rfl, rfl, rfl⟩

end Parse

------------------------------------------------------------
-- Documents
------------------------------------------------------------

/- A parser that nobody stops never sees a stop. -/
theorem parseUnless_false
    (tokens : List Token) :
    parseUnless false tokens = .ok (parse tokens) := by
  rcases moves_parseLexemes (Lexeme.ofTokens tokens) with
    ⟨_, hMoves⟩
  have hHalted :
      (parseLexemes (Lexeme.ofTokens tokens)).2.halted = false :=
    hMoves.halted
  unfold parseUnless
  rw [Parse.expressionUnless_false, Parse.statementsUnless_false]
  change (if (parseLexemes (Lexeme.ofTokens tokens)).2.halted = true
    then _ else _ : Except _ _) = _
  rw [hHalted]
  rfl

theorem parseUnless_true
    (tokens : List Token) :
    parseUnless true tokens = .error .cancelled := by
  have hHalted :=
    (Parse.halted_statementsUnless_true
      (Parse.expressionUnless true maxNesting maxHeight)
      (fun _ => false)
      (ParseState.start (Lexeme.ofTokens tokens))).2.2
  unfold parseUnless
  dsimp only
  generalize Parse.statementsUnless true _ _ _ = run at hHalted ⊢
  exact if_pos hHalted

------------------------------------------------------------
-- Lexers
------------------------------------------------------------

namespace Lexer

variable {l : Lexer}

/- Nobody but the outside stops a lexer. -/
theorem stopped_take
    (n : Nat)
    (hRaised : l.raised = false)
    (hStopped : l.stopped = false) :
    (l.take n).2.stopped = false := by
  induction n generalizing l with
  | zero => exact hStopped
  | succ n ih =>
      cases hRest : l.rest with
      | nil =>
          have hNext := next_of_rest_nil hRaised hStopped hRest
          rw [take_of_none n (by rw [hNext]), hNext]
          change l.finish.stopped = false
          unfold finish
          split <;> exact hStopped
      | cons c cs =>
          have hNext := next_of_rest_cons hRaised hStopped hRest
          rw [take_of_some n (by rw [hNext]), hNext]
          exact ih hRaised hStopped

/- A lexer sees a stop before its first token, or before the end. -/
theorem drain_raise
    (hStopped : l.stopped = false) :
    l.raise.drain = ([], { l.raise with stopped := true }) := by
  have hNext :
      l.raise.next = (none, { l.raise with stopped := true }) := by
    unfold next
    rw [if_neg (by rw [raise, hStopped]; decide)]
    exact if_pos rfl
  rw [drain, take_of_none _ (by rw [hNext]), hNext]

end Lexer

------------------------------------------------------------
-- Analyses
------------------------------------------------------------

/- An analysis that nobody stops goes through all stages. -/
theorem analyze_false
    (m : Metadata)
    (source : String) :
    analyze m false source =
      .ok
        { tokens := (tokenize source).1
          document := (parse (tokenize source).1).1
          term := (quoteSource m source).1
          errors := (quoteSource m source).2 } := by
  have hStopped : (Lexer.ofSource source).drain.2.stopped = false :=
    Lexer.stopped_take _ rfl rfl
  unfold analyze quoteSource tokenize Lexer.raisedIf
  rw [if_neg Bool.false_ne_true]
  rcases hDrain : (Lexer.ofSource source).drain with ⟨lexed, l⟩
  rw [hDrain] at hStopped
  dsimp only at hStopped ⊢
  rw [hStopped, parseUnless_false]
  rfl

/-
  An analysis that nobody stops finds what lexing, parsing and
  quoting find, with the errors of tokens first. One that was
  stopped beforehand finds nothing, whatever the source, and
  neither does a parser, whatever the tokens.
-/
theorem analyze_eq
    (m : Metadata)
    (source : String) :
    analyze m false source =
        .ok
          { tokens := (tokenize source).1
            document := (parse (tokenize source).1).1
            term := (quoteSource m source).1
            errors := (quoteSource m source).2 } ∧
      analyze m true source = .error .cancelled ∧
      ∀ tokens,
        parseUnless false tokens = .ok (parse tokens) ∧
          parseUnless true tokens = .error .cancelled := by
  refine ⟨?_, ?_, fun tokens =>
    ⟨parseUnless_false tokens, parseUnless_true tokens⟩⟩
  · exact analyze_false m source
  · unfold analyze Lexer.raisedIf
    rw [if_pos rfl, Lexer.drain_raise rfl]
    rfl

end ElixirReader
