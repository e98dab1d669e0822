import ElixirReader.Proofs.Lexer.Nesting
import ElixirReader.Proofs.Parser.Termination

/-
  This file shows that an error stays in the statement that it
  was found in. Whatever is wrong with a statement whose
  delimiters are balanced, those behind the next semicolon are
  parsed as if they stood alone.

  Key definitions include:
    * `AreOneStatement`

  Main declarations:
    * `AreOneStatement.rest_statement`
    * `AreOneStatement.statement_place`
    * `statementsFor_behind_separator`
    * `parse_append_semicolon`
-/

namespace ElixirReader

open Parse

variable {n k : Nat}
variable {s : ParseState}
variable {expr : ExpressionParser}
variable {stop : Kind → Bool}
variable {ls after : List Lexeme}

------------------------------------------------------------
-- Errors of a statement
------------------------------------------------------------

theorem errors_recovered
    (stop : Kind → Bool)
    (start : List Lexeme)
    (s : ParseState) :
    (recovered stop start s).errors = s.errors := by
  unfold recovered
  split <;> rfl

/- Where a statement ends, one error may be noted at most. -/
theorem steady_boundaryError?
    (n : Nat)
    (stop : Kind → Bool)
    (s : ParseState) :
    Steady n [] s (boundaryError? stop s).2 := by
  rcases boundaryError?_cases stop s with
    ⟨hEq, _⟩ | ⟨e, fault, span, hEq, _⟩
  · rw [hEq]
    exact Steady.refl n s
  · rw [hEq]
    exact (Takes.report n fault span s).toSteady

/-
  A statement that takes no lexemes behind which statements
  stand of their own shows one error at most.
-/
theorem length_errors_finishStatement_le
    {taken : List Lexeme}
    {start : ParseState}
    (hSteady : Steady n taken start s)
    (hStarts : Starts stop start.rest)
    (hTaken : ∀ l ∈ taken, l.kind.nestsStatements = false) :
    (finishStatement stop start.rest s).2.errors.length ≤
      start.errors.length + 1 := by
  rw [(finishStatement_eq hSteady.toMoves hStarts).1,
    errors_recovered]
  have hBudget :=
    (hSteady.trans (steady_boundaryError? n stop s)).budget
      (by simpa using hTaken)
  unfold ParseState.budget at hBudget
  split at hBudget <;> split at hBudget <;> omega

------------------------------------------------------------
-- One statement
------------------------------------------------------------

/- At a semicolon a stretch of lexemes, and a statement, may end. -/
theorem ends_at_semicolon
    {l : Lexeme}
    (after : List Lexeme)
    (hKind : l.kind = .semicolon) :
    Barrier (l :: after) ∧ Stops isTopLevelEnd (l :: after) := by
  constructor
  · change l.kind.isBarrier = true
    rw [hKind]
    rfl
  · change (isSeparator l.kind || false) = true
    rw [hKind]
    rfl

/-
  Lexemes that close all that they open, and that nothing
  separates outside of delimiters. Nothing else is asked of
  them.
-/
structure AreOneStatement
    (ls : List Lexeme) : Prop where
  nonempty : ls ≠ []
  balanced : Nest.behind? [] ls = some []
  joined :
    ∀ front l back,
      ls = front ++ l :: back →
        Nest.behind? [] front = some [] →
          isSeparator l.kind = false

namespace AreOneStatement

theorem starts
    (after : List Lexeme)
    (hOne : AreOneStatement ls) :
    Starts isTopLevelEnd (ls ++ after) := by
  cases ls with
  | nil => exact absurd rfl hOne.nonempty
  | cons l ls =>
      have hFirst := hOne.joined [] l ls rfl rfl
      change (isSeparator l.kind || false) = false
      rw [hFirst]
      rfl

/-
  A part of one statement that ends where statements may end,
  with nothing open there, is all of it.
-/
theorem rest_eq
    {taken : List Lexeme}
    (hOne : AreOneStatement (taken ++ ls))
    (hStops : Stops isTopLevelEnd (ls ++ after))
    (hBalanced : Nest.behind? [] ls = some []) :
    ls = [] := by
  cases ls with
  | nil => rfl
  | cons l ls =>
      exfalso
      rcases Nest.exists_of_behind?_append hOne.balanced with
        ⟨ds, hTaken, hLater⟩
      have hNone : ds = [] := by
        have hLength :=
          Nest.length_add_of_behind? hBalanced hLater
        rw [List.length_nil] at hLength
        exact List.length_eq_zero_iff.mp (by omega)
      rw [hNone] at hTaken
      have hJoined := hOne.joined taken l ls rfl hTaken
      change (isSeparator l.kind || false) = true at hStops
      rw [hJoined] at hStops
      cases hStops

/-
  A statement takes its own lexemes and no other, even if it
  is faulty, and it is done with its errors.
-/
theorem rest_statement
    (hExpr : Sound n expr)
    (hOne : AreOneStatement ls)
    (hBarrier : Barrier after)
    (hStops : Stops isTopLevelEnd after)
    (hRest : s.rest = ls ++ after) :
    (statement expr isTopLevelEnd s).2.rest = after ∧
      (statement expr isTopLevelEnd s).2.poisoned = false ∧
      ((∀ l ∈ ls, l.kind.nestsStatements = false) →
        (statement expr isTopLevelEnd s).2.errors.length ≤
          s.errors.length + 1) := by
  have hStarts : Starts isTopLevelEnd s.rest := by
    rw [hRest]
    exact hOne.starts after
  have hStart : Within [] after s :=
    ⟨ls, hRest, hOne.balanced⟩
  rcases hExpr.takes 0 .statement s with ⟨taken, hTakes⟩
  rcases hTakes.within [] after hBarrier hStart with
    ⟨ds, hWithin, _, hCode⟩
  have hFinish := within_finishStatement hTakes.toMoves hStarts
    hStart hStops ⟨ds, hWithin, (hCode rfl).1⟩
  rcases finishStatement_eq hTakes.toMoves hStarts with
    ⟨_, hEnd, _, more, hMore⟩
  rcases hFinish.1 with ⟨left, hLeft, hBalanced⟩
  refine ⟨?_, hFinish.2, ?_⟩
  · have hAll := (hTakes.toMoves.trans hMore).rest
    rw [hLeft, hRest, ← List.append_assoc] at hAll
    have hSplit := List.append_cancel_right hAll
    rw [hSplit] at hOne
    rw [hLeft] at hEnd
    have hNil := hOne.rest_eq hEnd hBalanced
    change (finishStatement isTopLevelEnd s.rest
      (expr 0 .statement s).2).2.rest = after
    rw [hLeft, hNil, List.nil_append]
  · intro hKinds
    rcases hWithin with ⟨left', hLeft', _⟩
    have hAll := hTakes.rest
    rw [hLeft', hRest, ← List.append_assoc] at hAll
    have hSplit := List.append_cancel_right hAll
    apply length_errors_finishStatement_le hTakes.toSteady
      hStarts
    intro l hMem
    apply hKinds
    rw [hSplit]
    exact List.mem_append_left _ hMem

/-
  A statement in order is the same with a semicolon behind it
  as it is on its own.
-/
theorem statement_place
    {h : Setting}
    {l : Lexeme}
    (hExpr : Sound n expr)
    (hOne : AreOneStatement ls)
    (hFaultless : Faultless ls)
    (hAfter : h.after = l :: after)
    (hKind : l.kind = .semicolon)
    (hRest : s.rest = ls)
    (hClean : s.poisoned = false)
    (hErrors :
      (statement expr isTopLevelEnd s).2.errors = s.errors) :
    statement expr isTopLevelEnd (h.place s) =
      ((statement expr isTopLevelEnd s).1,
        h.place (statement expr isTopLevelEnd s).2) := by
  have hRest' : s.rest = ls ++ [] := by
    rw [hRest, List.append_nil]
  have hWalk :
      Walk h n false (statement expr isTopLevelEnd)
        (statement expr isTopLevelEnd) s := by
    apply Walk.statement hExpr
    · rw [hRest']
      exact hOne.starts []
    · right
      intro m ms hEnds
      have hSame := hEnds.after
      rw [hAfter] at hSame
      cases hSame
      rw [hKind]
      rfl
  apply hWalk.tracks
  right
  refine ⟨⟨[], [], ⟨?_, ?_, hClean, ?_⟩, rfl⟩, hErrors⟩
  · refine .ends l after ⟨hAfter, ?_, ?_⟩
      (fun hInside => absurd hInside Bool.false_ne_true)
    · rw [hKind]
      rfl
    · intro hLine
      rw [hKind] at hLine
      cases hLine
  · exact ⟨ls, hRest', hOne.balanced⟩
  · rw [hRest]
    exact hFaultless

end AreOneStatement

------------------------------------------------------------
-- Statements behind a separator
------------------------------------------------------------

/- Skipping separators may start behind one of them. -/
theorem skipSeparators_advance
    {l : Lexeme}
    (hRest : s.rest = l :: ls)
    (hSeparator : isSeparator l.kind = true) :
    (skipSeparators (s.advance 1)).2 = (skipSeparators s).2 := by
  have hLength :
      runLength isSeparator s.rest =
        runLength isSeparator ls + 1 := by
    rw [hRest]
    unfold runLength
    rw [List.takeWhile_cons, if_pos hSeparator,
      List.length_cons]
  have hTake := ParseState.take_one hRest
  change (s.advance 1).advance
      (runLength isSeparator (s.advance 1).rest) =
    s.advance (runLength isSeparator s.rest)
  rw [hTake.2, hLength]
  simp only [ParseState.advance, ParseState.mk.injEq, and_self,
    and_true]
  rw [hRest]
  refine ⟨rfl, ?_⟩
  rw [List.drop_succ_cons, List.drop_zero,
    List.take_succ_cons, List.take_succ_cons, List.take_zero,
    List.getLast?_singleton, List.getLast?_cons]
  cases (ls.take (runLength isSeparator ls)).getLast? <;> rfl

/- Where nothing is left there are no statements. -/
theorem statementsFor_of_nil
    (hRest : s.rest = []) :
    (statementsFor expr stop (k + 1) s).1 = [] ∧
      (statementsFor expr stop (k + 1) s).2.errors =
        s.errors := by
  have hNil : (skipSeparators s).2.rest = [] := by
    rw [rest_skipSeparators, hRest]
    rfl
  rw [statementsFor_succ, hNil]
  exact ⟨rfl, rfl⟩

/-
  Statements behind a separator are parsed as if they stood
  alone.
-/
theorem statementsFor_behind_separator
    {l : Lexeme}
    (stop : Kind → Bool)
    (hExpr : Sound n expr)
    (hBound : ls.length < k)
    (hRest : s.rest = l :: ls)
    (hSeparator : isSeparator l.kind = true)
    (hClean : s.poisoned = false)
    (hActive : s.active = 0)
    (hCutShort : s.cutShort = false)
    (hHalted : s.halted = false)
    (hLast : ls ≠ [] → s.last = (ParseState.start ls).last) :
    (statementsFor expr stop k s).1 =
        (statementsFor expr stop (ls.length + 1)
          (ParseState.start ls)).1 ∧
      (statementsFor expr stop k s).2.errors =
        s.errors ++
          (statementsFor expr stop (ls.length + 1)
            (ParseState.start ls)).2.errors := by
  cases k with
  | zero => omega
  | succ k =>
      have hTake := ParseState.take_one hRest
      -- The separator itself belongs to no statement.
      have hSkip :
          statementsFor expr stop (k + 1) s =
            statementsFor expr stop (k + 1) (s.advance 1) := by
        rw [statementsFor_succ, statementsFor_succ,
          skipSeparators_advance hRest hSeparator]
      rw [hSkip]
      cases hLs : ls with
      | nil =>
          have hEnd : (s.advance 1).rest = [] := by
            rw [hTake.2, hLs]
          have hNone := @statementsFor_of_nil k _ expr stop hEnd
          have hAlone :=
            @statementsFor_of_nil 0 (ParseState.start []) expr
              stop rfl
          rw [hNone.1, hNone.2, List.length_nil, hAlone.1,
            hAlone.2]
          exact ⟨rfl, (List.append_nil _).symm⟩
      | cons m ms =>
          rw [← hLs]
          let h : Setting :=
            ⟨some l.span, s.errors, 0, s.deepest, [], s.last, false,
              false⟩
          have hWhole : h.IsWhole (ParseState.start ls) :=
            ⟨rfl, hLast (by simp [hLs])⟩
          have hPlace :
              h.place (ParseState.start ls) = s.advance 1 := by
            simp [Setting.place, h, ParseState.start,
              ParseState.advance, hRest, hClean, hActive,
              hCutShort, hHalted]
          have hWalk :
              Walk h n true
                (statementsFor expr stop (ls.length + 1))
                (statementsFor expr stop (k + 1))
                (ParseState.start ls) :=
            Walk.statementsFor hExpr (Nat.lt_succ_self _) hBound
          have hSame := hWalk.tracks (.inl hWhole)
          rw [hPlace] at hSame
          rw [hSame]
          exact ⟨rfl, rfl⟩

------------------------------------------------------------
-- Documents
------------------------------------------------------------

/- Where a statement starts it is the first one. -/
theorem statementsFor_of_starts
    (k : Nat)
    (hStarts : Starts stop s.rest) :
    statementsFor expr stop (k + 1) s =
      ((statement expr stop s).1 ::
          (statementsFor expr stop k
            (statement expr stop s).2).1,
        (statementsFor expr stop k
          (statement expr stop s).2).2) := by
  cases hRest : s.rest with
  | nil =>
      rw [hRest] at hStarts
      exact hStarts.elim
  | cons l ls =>
      rw [hRest] at hStarts
      change (isSeparator l.kind || stop l.kind) = false
        at hStarts
      rw [Bool.or_eq_false_iff] at hStarts
      have hNone : runLength isSeparator s.rest = 0 := by
        rw [hRest]
        simp [runLength, hStarts.1]
      have hSkip : (skipSeparators s).2 = s := by
        change s.advance (runLength isSeparator s.rest) = s
        rw [hNone]
        rfl
      rw [statementsFor_succ, hSkip, hRest]
      change (if stop l.kind = true then _ else _ : Parse _) s = _
      rw [hStarts.2]
      rfl

/- The end of a document is the end of any part behind. -/
theorem last_start_append
    (ls : List Lexeme)
    (hAfter : after ≠ []) :
    (ParseState.start (ls ++ after)).last =
      (ParseState.start after).last := by
  rcases List.getLast?_isSome.mpr hAfter |>
    Option.isSome_iff_exists.mp with ⟨l, hLast⟩
  unfold ParseState.start
  rw [List.getLast?_append, hLast]
  rfl

/- The first statement of a document, and the state behind it. -/
def firstStatement
    (ls : List Lexeme) : Node × ParseState :=
  statement topLevelExpression isTopLevelEnd
    (ParseState.start ls)

/- A document consists of its first statement and the others. -/
theorem parseLexemes_of_starts
    (hStarts : Starts isTopLevelEnd ls) :
    (parseLexemes ls).1 =
        (firstStatement ls).1 ::
          (statementsFor topLevelExpression isTopLevelEnd
            ls.length (firstStatement ls).2).1 ∧
      (parseLexemes ls).2.errors =
        (statementsFor topLevelExpression isTopLevelEnd
          ls.length (firstStatement ls).2).2.errors := by
  have hAll :
      statementsFor topLevelExpression isTopLevelEnd
          (ls.length + 1) (ParseState.start ls) =
        ((firstStatement ls).1 ::
            (statementsFor topLevelExpression isTopLevelEnd
              ls.length (firstStatement ls).2).1,
          (statementsFor topLevelExpression isTopLevelEnd
            ls.length (firstStatement ls).2).2) :=
    statementsFor_of_starts ls.length hStarts
  change (statementsFor topLevelExpression isTopLevelEnd
      (ls.length + 1) (ParseState.start ls)).1 = _ ∧
    (statementsFor topLevelExpression isTopLevelEnd
      (ls.length + 1) (ParseState.start ls)).2.errors = _
  rw [hAll]
  exact ⟨rfl, rfl⟩

namespace AreOneStatement

variable {l : Lexeme}

theorem rest_firstStatement
    (hOne : AreOneStatement ls)
    (hBarrier : Barrier after)
    (hStops : Stops isTopLevelEnd after) :
    (firstStatement (ls ++ after)).2.rest = after ∧
      (firstStatement (ls ++ after)).2.poisoned = false ∧
      ((∀ l ∈ ls, l.kind.nestsStatements = false) →
        (firstStatement (ls ++ after)).2.errors.length ≤ 1) :=
  hOne.rest_statement (s := ParseState.start (ls ++ after))
    sound_topLevelExpression hBarrier hStops rfl

/- One statement that stands alone is the only one. -/
theorem parseLexemes_eq
    (hOne : AreOneStatement ls) :
    (parseLexemes ls).1 = [(firstStatement ls).1] ∧
      (parseLexemes ls).2.errors =
        (firstStatement ls).2.errors := by
  have hRest : (ParseState.start ls).rest = ls ++ [] :=
    (List.append_nil ls).symm
  have hEnd : (firstStatement ls).2.rest = [] :=
    (hOne.rest_statement sound_topLevelExpression
      (show Barrier [] from True.intro)
      (show Stops isTopLevelEnd [] from True.intro) hRest).1
  have hStarts := hOne.starts []
  rw [List.append_nil] at hStarts
  have hAlone := parseLexemes_of_starts hStarts
  rcases Nat.exists_eq_add_one_of_ne_zero
    (mt List.length_eq_zero_iff.mp hOne.nonempty) with
    ⟨k, hLength⟩
  have hNone := @statementsFor_of_nil k _ topLevelExpression
    isTopLevelEnd hEnd
  rw [hAlone.1, hAlone.2, hLength, hNone.1, hNone.2]
  exact ⟨rfl, rfl⟩

/-
  Behind one statement and a semicolon, a document is what it
  is without them.
-/
theorem parseLexemes_append
    (after : List Lexeme)
    (hOne : AreOneStatement ls)
    (hKind : l.kind = .semicolon) :
    (parseLexemes (ls ++ l :: after)).1 =
        (firstStatement (ls ++ l :: after)).1 ::
          (parseLexemes after).1 ∧
      (parseLexemes (ls ++ l :: after)).2.errors =
        (firstStatement (ls ++ l :: after)).2.errors ++
          (parseLexemes after).2.errors := by
  have hSeparator : isSeparator l.kind = true := by
    rw [hKind]
    rfl
  have hStarts := hOne.starts (l :: after)
  have hAll := parseLexemes_of_starts hStarts
  have hEnds := ends_at_semicolon after hKind
  have hBehind := hOne.rest_firstStatement hEnds.1 hEnds.2
  have hMoves :
      ∃ taken, Moves maxNesting taken
        (ParseState.start (ls ++ l :: after))
        (firstStatement (ls ++ l :: after)).2 :=
    (moves_statement sound_topLevelExpression hStarts).1
  rcases hMoves with ⟨taken, hMoves⟩
  have hBound : after.length < (ls ++ l :: after).length := by
    rw [List.length_append, List.length_cons]
    omega
  have hLast :
      after ≠ [] →
        (firstStatement (ls ++ l :: after)).2.last =
          (ParseState.start after).last := by
    intro hAfter
    have hSplit : ls ++ l :: after = (ls ++ [l]) ++ after := by
      simp
    rw [hMoves.last, hSplit]
    exact last_start_append _ hAfter
  have hLater :=
    statementsFor_behind_separator isTopLevelEnd
      sound_topLevelExpression hBound hBehind.1 hSeparator
      hBehind.2.1 hMoves.active hMoves.cutShort
      hMoves.halted hLast
  rw [hAll.1, hAll.2, hLater.1, hLater.2]
  exact ⟨rfl, rfl⟩

/- A statement in order is not changed by those behind it. -/
theorem firstStatement_append
    (after : List Lexeme)
    (hOne : AreOneStatement ls)
    (hKind : l.kind = .semicolon)
    (hFaultless : Faultless ls)
    (hErrors : (firstStatement ls).2.errors = []) :
    (firstStatement (ls ++ l :: after)).1 =
        (firstStatement ls).1 ∧
      (firstStatement (ls ++ l :: after)).2.errors = [] := by
  let h : Setting :=
    ⟨none, [], 0, 0, l :: after,
      (ParseState.start (ls ++ l :: after)).last, false, false⟩
  have hPlace :
      h.place (ParseState.start ls) =
        ParseState.start (ls ++ l :: after) := by
    simp [Setting.place, h, ParseState.start]
  have hSame := hOne.statement_place (h := h)
    (s := ParseState.start ls) sound_topLevelExpression
    hFaultless rfl hKind rfl rfl hErrors
  rw [hPlace] at hSame
  have hFirst :
      firstStatement (ls ++ l :: after) =
        ((firstStatement ls).1, h.place (firstStatement ls).2) :=
    hSame
  rw [hFirst]
  exact ⟨rfl, hErrors⟩

end AreOneStatement

------------------------------------------------------------
-- Sources
------------------------------------------------------------

/- Between the lexemes of two lists of tokens stands a lexeme. -/
theorem Lexeme.exists_ofTokensAfter_append_cons
    {t : Token}
    (spaced : Bool)
    (ts us : List Token)
    (hTrivia : t.kind.isTrivia = false) :
    ∃ l : Lexeme, l.kind = t.kind ∧
      ofTokensAfter spaced (ts ++ t :: us) =
        ofTokensAfter spaced ts ++ l :: ofTokens us := by
  induction ts generalizing spaced with
  | nil =>
      refine ⟨⟨t.kind, t.text, t.span, spaced⟩, rfl, ?_⟩
      simp [ofTokensAfter, ofTokens, hTrivia]
  | cons u ts ih =>
      change ∃ l : Lexeme, _ ∧
        ofTokensAfter spaced (u :: (ts ++ t :: us)) = _
      rw [ofTokensAfter, ofTokensAfter]
      cases u.kind.isTrivia with
      | true => exact ih true
      | false =>
          rcases ih false with ⟨l, hKind, hTokens⟩
          refine ⟨l, hKind, ?_⟩
          exact congrArg (List.cons _) hTokens

/- Tokens are parsed by their lexemes. -/
theorem parse_eq
    (tokens : List Token) :
    (parse tokens).1.expressions =
        (parseLexemes (Lexeme.ofTokens tokens)).1 ∧
      (parse tokens).2 =
        (parseLexemes (Lexeme.ofTokens tokens)).2.errors :=
  ⟨rfl, rfl⟩

/- The tokens of one statement make up its lexemes. -/
theorem areOneStatement_ofTokens_tokenize
    {source : String}
    (hSignificant :
      ∃ t ∈ (tokenize source).1, t.kind.isTrivia = false)
    (hBalanced : Token.AreBalanced (tokenize source).1)
    (hJoined : Token.AreJoined (tokenize source).1) :
    AreOneStatement (Lexeme.ofTokens (tokenize source).1) := by
  refine ⟨?_, behind?_ofTokens_tokenize hBalanced, ?_⟩
  · rcases hSignificant with ⟨t, hMem, hTrivia⟩
    rcases List.append_of_mem hMem with ⟨ts, us, hSplit⟩
    rcases Lexeme.exists_ofTokensAfter_append_cons false ts us
      hTrivia with ⟨l, _, hTokens⟩
    rw [hSplit, Lexeme.ofTokens, hTokens]
    simp
  · intro front l back hSplit hFront
    exact isJoined_ofTokens_tokenize hBalanced hJoined hSplit
      hFront

/-
  Let the tokens of a source be balanced, with nothing between
  them that separates statements outside of delimiters. They
  may be faulty in any other way. With a semicolon and any
  tokens behind them, they are parsed to one expression and
  some errors, in front of those of the tokens behind. If
  nothing is wrong with them, the expression is the one that
  they are parsed to alone, and without statements inside of
  them there is one error at most.

  A literal that is not ended is no case of this, since its
  terminator is awaited.
-/
theorem parse_append_semicolon
    (source : String)
    (t : Token)
    (after : List Token)
    (hSignificant :
      ∃ t ∈ (tokenize source).1, t.kind.isTrivia = false)
    (hBalanced : Token.AreBalanced (tokenize source).1)
    (hJoined : Token.AreJoined (tokenize source).1)
    (hSemicolon : t.kind = .semicolon) :
    ∃ first errors,
      (parse ((tokenize source).1 ++ t :: after)).1.expressions =
          first :: (parse after).1.expressions ∧
        (parse ((tokenize source).1 ++ t :: after)).2 =
          errors ++ (parse after).2 ∧
        ((tokenize source).2 = [] →
          (parse (tokenize source).1).2 = [] →
            errors = [] ∧
              (parse (tokenize source).1).1.expressions =
                [first]) ∧
        ((∀ t ∈ (tokenize source).1,
            t.kind.nestsStatements = false) →
          errors.length ≤ 1) := by
  have hOne := areOneStatement_ofTokens_tokenize hSignificant
    hBalanced hJoined
  rcases Lexeme.exists_ofTokensAfter_append_cons false
      (tokenize source).1 after (by rw [hSemicolon]; rfl) with
    ⟨l, hKind, hTokens⟩
  rw [hSemicolon] at hKind
  change Lexeme.ofTokens _ =
    Lexeme.ofTokens (tokenize source).1 ++ _ at hTokens
  have hAll := hOne.parseLexemes_append
    (Lexeme.ofTokens after) hKind
  have hAlone := hOne.parseLexemes_eq
  rw [(parse_eq _).1, (parse_eq _).2, (parse_eq after).1,
    (parse_eq after).2, (parse_eq (tokenize source).1).1,
    (parse_eq (tokenize source).1).2, hTokens, hAlone.1,
    hAlone.2]
  refine ⟨_, _, hAll.1, hAll.2, ?_, ?_⟩
  · intro hLexical hErrors
    have hFirst := hOne.firstStatement_append
      (Lexeme.ofTokens after) hKind
      (faultless_ofTokens_tokenize hLexical) hErrors
    rw [hFirst.1]
    exact ⟨hFirst.2, rfl⟩
  · intro hKinds
    have hEnds := ends_at_semicolon (Lexeme.ofTokens after) hKind
    apply (hOne.rest_firstStatement hEnds.1 hEnds.2).2.2
    intro l hMem
    rcases Lexeme.exists_of_mem_ofTokens hMem with
      ⟨t, hToken, hSame⟩
    rw [← hSame]
    exact hKinds t hToken

/- A list without its comma spoils nothing behind it. -/
theorem parse_append_semicolon_missing_comma :
    (parse (tokenize "[1 2]").1).2 ≠ [] ∧
      ∃ first errors,
        (parse ((tokenize "[1 2]").1 ++
              ⟨.semicolon, ";", Span.none⟩ ::
                (tokenize "x").1)).1.expressions =
            first :: (parse (tokenize "x").1).1.expressions ∧
          (parse ((tokenize "[1 2]").1 ++
              ⟨.semicolon, ";", Span.none⟩ ::
                (tokenize "x").1)).2 =
            errors ++ (parse (tokenize "x").1).2 ∧
          errors.length ≤ 1 := by
  refine ⟨by decide +kernel, ?_⟩
  rcases parse_append_semicolon "[1 2]"
      ⟨.semicolon, ";", Span.none⟩ (tokenize "x").1
      (by decide) (by decide)
      (by decide) rfl with
    ⟨first, errors, hFirst, hErrors, _, hFew⟩
  exact ⟨first, errors, hFirst, hErrors,
    hFew (by decide)⟩

end ElixirReader
