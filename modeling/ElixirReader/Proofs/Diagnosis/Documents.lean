import ElixirReader.Proofs.Diagnosis.Expressions
import ElixirReader.Proofs.Lexer.Stretches
import ElixirReader.Proofs.Parser.Chains
import ElixirReader.Proofs.Parser.Termination

/-
  This file shows which tokens the parser blames once more
  after the lexer has. Faulty digits it never blames. A
  character without a place it blames where something else
  than an operand has to stand, behind a token that may be the
  end of something, or where expressions are nested too
  deeply.

  Main declarations:
    * `scanned_tokenize`
    * `misplaced_of_blamed`
-/

namespace ElixirReader

open Parse

------------------------------------------------------------
-- Lexemes of a source
------------------------------------------------------------

theorem scanned_tokenize
    (source : String) :
    Scanned (Lexeme.ofTokens (tokenize source).1) := by
  obtain ⟨_, hTiles⟩ := exists_tiles_tokenize source
  have hTokens := Lexeme.map_token_ofTokensAfter false
    (tokenize source).1
  refine ⟨?_, ?_, Lexeme.areNumbered_ofTokens_tokenize source⟩
  · intro l hMem
    exact (hTiles.apart.1 l.token (Lexeme.token_mem hMem)).2
  · have hApart := hTiles.apart.2.filter
      (fun t => !t.kind.isTrivia)
    rw [← hTokens] at hApart
    exact List.pairwise_map.mp hApart

/- The first lexeme is no faulty digits. -/
theorem Scanned.noDigits
    {all : List Lexeme}
    (hScanned : Scanned all) :
    NoDigits all := by
  rintro l ms rfl
  rw [Bool.eq_false_iff]
  intro hBad
  cases (hScanned.numbered.1 hBad).2

/- What is parsed of a source notes fair errors only. -/
theorem isFair_parse
    (source : String)
    (e : ParseError)
    (hError : e ∈ (parse (tokenize source).1).2) :
    IsFair (Lexeme.ofTokens (tokenize source).1) e := by
  have hScanned := scanned_tokenize source
  have hStart : Watched (Lexeme.ofTokens (tokenize source).1)
      (ParseState.start (Lexeme.ofTokens (tokenize source).1)) :=
    ⟨hScanned, List.suffix_refl _, rfl,
      fun _ _ hMem => (List.not_mem_nil hMem).elim⟩
  have hNever : StopsInOrder fun _ => false :=
    fun _ hKind => nomatch hKind
  have hEnd :=
    (Watches.statements
      (careful_expression _ maxNesting maxHeight) hNever
      hScanned.noDigits hStart).1
  rcases moves_parseLexemes
    (Lexeme.ofTokens (tokenize source).1) with ⟨taken, hMoves⟩
  exact hEnd.errors hMoves.cutShort e hError

/- The lexeme that a token is, and what stands before it. -/
theorem Lexeme.exists_of_tokens_eq
    {before after : List Token}
    {t : Token}
    (hTrivia : t.kind.isTrivia = false) :
    ∃ front l back,
      ofTokens (before ++ t :: after) = front ++ l :: back ∧
        l.token = t ∧
        front.map Lexeme.token =
          before.filter fun p => !p.kind.isTrivia := by
  rcases exists_ofTokensAfter_append false before with
    ⟨spaced, hAppend⟩
  refine ⟨_, ⟨t.kind, t.text, t.span, spaced⟩,
    ofTokensAfter false after, ?_, rfl,
    map_token_ofTokensAfter false before⟩
  change ofTokensAfter false (before ++ t :: after) = _
  rw [hAppend]
  simp [ofTokensAfter, hTrivia]

/-
  If an error of the parser has the span of a token that the
  lexer has reported, then that token is a character without a
  place. The complaint is that expressions are nested too
  deeply, or it quotes the character where something else has
  to stand: the token before it is none behind which only an
  operand may stand.
-/
theorem misplaced_of_blamed
    (source : String)
    (before after : List Token)
    (t : Token)
    (e : ParseError)
    (hTokens : (tokenize source).1 = before ++ t :: after)
    (hFaulty : t.kind.isFaulty = true)
    (hError : e ∈ (parse (tokenize source).1).2)
    (hSpan : e.span = t.span) :
    t.kind = .badCharacter ∧
      (e.fault = .tooDeeplyNested ∨
        e.fault.found? = some t.text ∧
          ∃ p,
            (before.filter fun p =>
              !p.kind.isTrivia).getLast? = some p ∧
              p.kind.awaitsOperand = false) := by
  have hTrivia : t.kind.isTrivia = false := by
    generalize t.kind = kind at hFaulty
    cases kind <;> first | rfl | cases hFaulty
  rcases Lexeme.exists_of_tokens_eq hTrivia with
    ⟨front, l, back, hSplit, rfl, hFront⟩
  have hFair := isFair_parse source e hError
  rw [hTokens] at hFair
  rcases hFair front l back hSplit hFaulty hSpan with
    ⟨hKind, hDeep | ⟨hFound, p, hLast, hAwaits⟩⟩
  · exact ⟨hKind, .inl hDeep⟩
  · refine ⟨hKind, .inr ⟨hFound, p.token, ?_, hAwaits⟩⟩
    rw [← hFront, List.getLast?_map, hLast]
    rfl

/- Behind a number an operator has to stand, and none does. -/
theorem misplaced_of_blamed_behind_number :
    (⟨.unexpectedToken "$", ⟨2, 3, 1, 3⟩⟩ : ParseError) ∈
        (parse (tokenize "1 $").1).2 ∧
      Kind.badCharacter.isFaulty = true ∧
      ∃ p,
        (([⟨.digits .decimal, "1", ⟨0, 1, 1, 1⟩⟩,
            ⟨.whiteSpace, " ", ⟨1, 2, 1, 2⟩⟩] : List Token).filter
          fun p => !p.kind.isTrivia).getLast? = some p ∧
          p.kind.awaitsOperand = false := by
  have hTokens : (tokenize "1 $").1 =
      [⟨.digits .decimal, "1", ⟨0, 1, 1, 1⟩⟩,
        ⟨.whiteSpace, " ", ⟨1, 2, 1, 2⟩⟩] ++
      ⟨.badCharacter, "$", ⟨2, 3, 1, 3⟩⟩ :: [] := by
    decide
  have hError :
      (⟨.unexpectedToken "$", ⟨2, 3, 1, 3⟩⟩ : ParseError) ∈
        (parse (tokenize "1 $").1).2 := by
    decide +kernel
  refine ⟨hError, rfl, ?_⟩
  rcases (misplaced_of_blamed "1 $" _ _ _ _ hTokens rfl hError
    rfl).2 with hDeep | ⟨_, hBefore⟩
  · cases hDeep
  · exact hBefore

/- So a token may be blamed by the lexer and by the parser. -/
theorem exists_blamed_twice :
    ∃ t ∈ (tokenize "1 $").1,
      t.kind.isFaulty = true ∧
        ∃ e ∈ (parse (tokenize "1 $").1).2, e.span = t.span := by
  decide +kernel

end ElixirReader
