import ElixirReader.Proofs.Errors.Documents
import ElixirReader.Proofs.Likeness.Expressions
import ElixirReader.Proofs.Likeness.Terms
import ElixirReader.Proofs.Parser.Yields
import ElixirReader.Proofs.Quote.Operands

/-
  This file lets the parser run over two sources whose lexemes
  match. If it finds nothing wrong with the first one it finds
  nothing wrong with the second one, and the terms are the
  same but for their metadata.

  Key definitions include:
    * `Before.start`

  Main declarations:
    * `Matches.alike_statements`
    * `Matches.alike_parseLexemes`
    * `quoteSource_of_matches`
-/

namespace ElixirReader

open Parse

/- Before the first lexeme newlines are of no matter. -/
def Before.start : Before :=
  ⟨.semicolon, false⟩

/-
  Statements of two sources keep together. Those of the second
  may be read at a lower level, unless it is too low for them.
-/
theorem Matches.alike_statements
    {deep : Bool}
    {n n' h h' : Nat}
    {ls ls' : List Lexeme}
    {s s' : ParseState}
    (hMatches : Matches .start ls ls')
    (hFaultless : Faultless ls)
    (hFramed : Nest.framedBehind? [] ls = some [])
    (hStands : Stands ls s)
    (hStands' : Stands ls' s')
    (hWhole : s.cutShort = false)
    (hWhole' : s'.cutShort = false)
    (hNesting : deep = true ∨ n ≤ n')
    (hHeight : deep = true ∨ h ≤ h')
    (hErrors :
      (statements (expression n h) isTopLevelEnd s).2.errors = [])
    (hShallow : deep = true →
      ∀ e ∈ (statements (expression n' h') isTopLevelEnd
        s').2.errors, e.fault ≠ .tooDeeplyNested) :
    (statements (expression n' h') isTopLevelEnd s').2.errors = [] ∧
      Alike (statements (expression n h) isTopLevelEnd s).1
        (statements (expression n' h') isTopLevelEnd s').1 := by
  have hPaired : Paired [] (Resumes isTopLevelEnd) s s' := by
    refine ⟨hStands.poisoned, hStands.errors, ?_, ?_,
      hStands'.poisoned, hStands'.errors, ?_⟩
    · rw [hStands.rest]
      exact hFaultless
    · rw [hStands.rest]
      exact hFramed
    · rw [hStands.rest, hStands'.rest]
      exact .inl ⟨.start, rfl, hMatches⟩
  have hCut : ∀ (k m : Nat) (t : ParseState),
      (statements (expression k m) isTopLevelEnd t).2.cutShort =
        t.cutShort := by
    intro k m t
    have hWalk : Walk .any k true
        (statements (expression k m) isTopLevelEnd)
        (statements (expression k m) isTopLevelEnd) t :=
      Walk.statements (sound_expression k m)
    rcases hWalk.moves with ⟨taken, hMoves⟩
    exact hMoves.cutShort
  rcases Mirrors.statements
      (mirrored_expression hNesting h h' hHeight) hPaired rfl with
    (hNoted | hCutShort | hCutShort | ⟨hDeep, e, hMem, hFault⟩) |
      ⟨hAlike, hEnd⟩
  · exact absurd hErrors hNoted
  · rw [hCut, hWhole] at hCutShort
    cases hCutShort
  · rw [hCut, hWhole'] at hCutShort
    cases hCutShort
  · exact absurd hFault (hShallow hDeep e hMem)
  · exact ⟨hEnd.errors', hAlike⟩

theorem Matches.alike_parseLexemes
    {ls ls' : List Lexeme}
    (hMatches : Matches .start ls ls')
    (hFaultless : Faultless ls)
    (hFramed : Nest.framedBehind? [] ls = some [])
    (hErrors : (parseLexemes ls).2.errors = []) :
    (parseLexemes ls').2.errors = [] ∧
      Alike (parseLexemes ls).1 (parseLexemes ls').1 :=
  hMatches.alike_statements hFaultless hFramed ⟨rfl, rfl, rfl⟩
    ⟨rfl, rfl, rfl⟩ rfl rfl (.inr (Nat.le_refl maxNesting))
    (.inr (Nat.le_refl maxHeight)) hErrors
    fun hDeep : false = true => absurd hDeep Bool.false_ne_true

/- Trees that are alike have the same terms. -/
theorem Alike.map_quote_eq
    {ns ms : List Node}
    (hAlike : Alike ns ms) :
    ns.map (Node.quote .none) = ms.map (Node.quote .none) := by
  rw [← quote_unplacedAll fun n _ => keepsTerm n, hAlike,
    quote_unplacedAll fun n _ => keepsTerm n]

/- A source without errors has none of either sort. -/
theorem quoteSource_eq_nil_iff
    (m : Metadata)
    (source : String) :
    (quoteSource m source).2 = [] ↔
      (tokenize source).2 = [] ∧
        (parseLexemes
          (Lexeme.ofTokens (tokenize source).1)).2.errors = [] := by
  rw [quoteSource_eq, SourceError.all, List.append_eq_nil_iff,
    List.map_eq_nil_iff, List.map_eq_nil_iff]

/- Sources without errors whose lexemes match have the same term. -/
theorem quoteSource_of_matches
    {source source' : String}
    (hMatches : Matches .start
      (Lexeme.ofTokens (tokenize source).1)
      (Lexeme.ofTokens (tokenize source').1))
    (hClean : (quoteSource .none source).2 = [])
    (hLexical : (tokenize source').2 = []) :
    quoteSource .none source' = quoteSource .none source := by
  rcases (quoteSource_eq_nil_iff .none source).mp hClean with
    ⟨hLexed, hParsed⟩
  rcases hMatches.alike_parseLexemes
      (faultless_ofTokens_tokenize hLexed)
      (framedBehind?_ofTokens_tokenize hLexed) hParsed with
    ⟨hParsed', hAlike⟩
  rw [quoteSource_eq, quoteSource_eq, hLexed, hLexical, hParsed,
    hParsed', Node.quoteAll_eq, Node.quoteAll_eq,
    hAlike.map_quote_eq]

end ElixirReader
