import ElixirReader.Lexer.Basic
import ElixirReader.Proofs.Errors.Expressions

/-
  This file shows that the errors of a source and the errors
  in its tree go together. An error node stands only where the
  lexer or the parser has noted an error. An error that the
  parser has noted leaves a node in the tree, unless it is
  about a quoted key that does not come to its colon.

  Main declarations:
    * `reads_parse`
    * `containsError_of_errors_parse`
    * `errors_of_containsError_parse`
-/

namespace ElixirReader

open Parse

/- The parser reads every list of lexemes from its start. -/
theorem reads_parse
    (lexemes : List Lexeme) :
    Reads [] [] [] nodesOf
      (statements (expression maxNesting maxHeight)
        (fun _ => false))
      (ParseState.start lexemes) :=
  Reads.statements (candid_expression maxNesting maxHeight)

/- A source without lexical errors gives the parser no reason. -/
theorem calm_start
    {source : String}
    (hErrors : (tokenize source).2 = []) :
    Calm false []
      (ParseState.start (Lexeme.ofTokens (tokenize source).1)) :=
  ⟨rfl, faultless_ofTokens_tokenize hErrors,
    framedBehind?_ofTokens_tokenize hErrors,
    fun hTrailing => by cases hTrailing⟩

------------------------------------------------------------
-- Errors that are noted
------------------------------------------------------------

/-
  If every quoted key ends right before its colon, an error
  that the parser notes leaves an error in one of the trees.
-/
theorem containsError_of_errors_parse
    (tokens : List Token)
    (hKeys : keysClose (Lexeme.ofTokens tokens) = true)
    (hErrors : (parse tokens).2 ≠ []) :
    ∃ n ∈ (parse tokens).1.expressions,
      n.containsError = true :=
  (reads_parse (Lexeme.ofTokens tokens)).shows hKeys
    (.inr hErrors)

/- A missing operand next to a quoted key is such an error. -/
theorem containsError_of_errors_parse_operand :
    keysClose
        (Lexeme.ofTokens (tokenize "[\"a #\x7bb\x7d\": c +]").1) =
          true ∧
      (parse (tokenize "[\"a #\x7bb\x7d\": c +]").1).2 ≠ [] ∧
      ∃ n ∈ (parse (tokenize
          "[\"a #\x7bb\x7d\": c +]").1).1.expressions,
        n.containsError = true := by
  have hKeys :
      keysClose (Lexeme.ofTokens
        (tokenize "[\"a #\x7bb\x7d\": c +]").1) = true := by
    decide +kernel
  have hErrors :
      (parse (tokenize "[\"a #\x7bb\x7d\": c +]").1).2 ≠ [] := by
    decide +kernel
  exact ⟨hKeys, hErrors,
    containsError_of_errors_parse _ hKeys hErrors⟩

/-
  A key whose interpolation is not closed before its colon is
  dropped, and the errors in it and behind it with it.
-/
theorem errors_parse_key :
    (parse (tokenize "\"#\x7b(\x7d\": 1").1).2 ≠ [] ∧
      ∀ n ∈ (parse
          (tokenize "\"#\x7b(\x7d\": 1").1).1.expressions,
        n.containsError = false := by
  decide +kernel

------------------------------------------------------------
-- Errors in the trees
------------------------------------------------------------

/-
  If a tree of a source holds an error node, the lexer or the
  parser has noted an error.
-/
theorem errors_of_containsError_parse
    (source : String)
    (n m : Node)
    (hRoot :
      n ∈ (parse (tokenize source).1).1.expressions)
    (hNode : m ∈ n.preorder)
    (hError : m.isError = true) :
    (tokenize source).2 ≠ [] ∨
      (parse (tokenize source).1).2 ≠ [] := by
  have hContains : n.containsError = true :=
    List.any_eq_true.mpr ⟨m, hNode, hError⟩
  by_cases hLexical : (tokenize source).2 = []
  · right
    intro hSyntactic
    rcases (reads_parse _).calm rfl (calm_start hLexical)
      hSyntactic with ⟨_, _, hSilent⟩
    exact hasError_nil (hSilent ⟨n, hRoot, hContains⟩)
  · exact .inl hLexical

/- A character that no token has is an error of the lexer alone. -/
theorem errors_of_containsError_parse_character :
    (parse (tokenize "f $").1).2 = [] ∧
      ∃ n ∈ (parse (tokenize "f $").1).1.expressions,
        ∃ m ∈ n.preorder, m.isError = true ∧
          ((tokenize "f $").2 ≠ [] ∨
            (parse (tokenize "f $").1).2 ≠ []) := by
  have hAny :
      (parse (tokenize "f $").1).1.expressions.any
        Node.containsError = true := by
    decide +kernel
  rcases List.any_eq_true.mp hAny with ⟨n, hRoot, hContains⟩
  rcases List.any_eq_true.mp hContains with ⟨m, hNode, hError⟩
  refine ⟨by decide, n, hRoot, m, hNode, hError, ?_⟩
  exact errors_of_containsError_parse "f $" n m hRoot hNode
    hError

end ElixirReader
