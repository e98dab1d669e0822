import ElixirReader.Proofs.Parser.Containment

/-
  This file compares the statements of a text that stands
  alone with those of the same text inside of delimiters. If
  the first are in order, the second are the same statements.
  They end at the closing delimiter, which is left.

  Key definitions include:
    * `Setting.Encloses`

  Main declarations:
    * `Setting.Encloses.rest_skipSeparators`
    * `statement_place`
    * `statementsFor_place`
-/

namespace ElixirReader

open Parse

variable {n k m : Nat}
variable {s : ParseState}
variable {expr : ExpressionParser}
variable {h : Setting}
variable {c : Lexeme}
variable {cs : List Lexeme}

------------------------------------------------------------
-- Settings
------------------------------------------------------------

/-
  A closing delimiter comes behind the smaller text, perhaps
  on a new line.
-/
structure Setting.Encloses
    (h : Setting)
    (c : Lexeme)
    (cs : List Lexeme) : Prop where
  after : h.after = c :: cs ∨
    ∃ l : Lexeme, h.after = l :: c :: cs ∧ l.kind = .endOfLine
  kind : c.kind = .closing .parenthesis ∨
    c.kind = .interpolationEnd

namespace Setting.Encloses

theorem isBarrier
    (hEncloses : h.Encloses c cs) :
    c.kind.isBarrier = true := by
  rcases hEncloses.kind with hKind | hKind
  · rw [hKind]
    rfl
  · rw [hKind]
    rfl

theorem isSeparator
    (hEncloses : h.Encloses c cs) :
    isSeparator c.kind = false := by
  rcases hEncloses.kind with hKind | hKind
  · rw [hKind]
    rfl
  · rw [hKind]
    rfl

theorem closer?
    (hEncloses : h.Encloses c cs) :
    c.kind.closer?.isSome = true := by
  rcases hEncloses.kind with hKind | hKind
  · rw [hKind]
    rfl
  · rw [hKind]
    rfl

/- The delimiter, or the newline before it, ends the text. -/
theorem exists_ends
    (hEncloses : h.Encloses c cs) :
    ∃ l ls, h.Ends l ls := by
  rcases hEncloses.after with hAfter | ⟨l, hAfter, hLine⟩
  · refine ⟨c, cs, hAfter, ?_, ?_⟩
    · rcases hEncloses.kind with hKind | hKind
      · rw [hKind]
        rfl
      · rw [hKind]
        rfl
    · intro hLine
      have hNot := hEncloses.isSeparator
      rw [hLine] at hNot
      cases hNot
  · refine ⟨l, c :: cs, hAfter, ?_, ?_⟩
    · rw [hLine]
      rfl
    · exact fun _ => ⟨c, cs, rfl, hEncloses.isBarrier⟩

theorem stopsAt
    (hEncloses : h.Encloses c cs) :
    h.StopsAt (· == c.kind) := by
  intro l ls hEnds
  have hSame := hEnds.after
  rcases hEncloses.after with hAfter | ⟨l', hAfter, hLine⟩
  · rw [hAfter] at hSame
    cases hSame
    simp
  · rw [hAfter] at hSame
    cases hSame
    rw [hLine]
    rfl

/- Skipping separators at the end leads to the delimiter. -/
theorem rest_skipSeparators
    (hEncloses : h.Encloses c cs)
    (hNil : (skipSeparators s).2.rest = []) :
    (skipSeparators (h.place s)).2.rest = c :: cs := by
  have hNot := hEncloses.isSeparator
  rw [ElixirReader.rest_skipSeparators] at hNil ⊢
  change (s.rest ++ h.after).dropWhile _ = _
  rw [List.dropWhile_append, hNil, List.isEmpty_nil, if_pos rfl]
  rcases hEncloses.after with hAfter | ⟨l, hAfter, hLine⟩
  · rw [hAfter]
    simp [hNot]
  · have hSeparator : Parse.isSeparator l.kind = true := by
      rw [hLine]
      rfl
    rw [hAfter]
    simp [hNot, hSeparator]

end Setting.Encloses

------------------------------------------------------------
-- One statement
------------------------------------------------------------

/- Before a lexeme, the same separators are skipped. -/
theorem skipSeparators_place
    (h : Setting)
    (hMore : (skipSeparators s).2.rest ≠ []) :
    (skipSeparators (h.place s)).2 =
      h.place (skipSeparators s).2 := by
  have hLength :
      runLength isSeparator (s.rest ++ h.after) =
        runLength isSeparator s.rest := by
    rw [rest_skipSeparators] at hMore
    unfold runLength
    rw [Setting.takeWhile_append_of_exists]
    cases hRest : s.rest.dropWhile (fun l => isSeparator l.kind) with
    | nil => exact absurd hRest hMore
    | cons l ls =>
        have hHead := List.head?_dropWhile_not
          (fun l : Lexeme => isSeparator l.kind) s.rest
        rw [hRest] at hHead
        refine ⟨l, ?_, by simpa using hHead⟩
        apply (List.dropWhile_suffix _).subset
        rw [hRest]
        exact List.mem_cons_self
  change (h.place s).advance
    (runLength isSeparator (s.rest ++ h.after)) = _
  rw [hLength, h.place_advance (runLength_le_length _ _)]
  rfl

/- What closes a delimiter does not start a stretch that is balanced. -/
theorem Within.closer?_eq_none
    {l : Lexeme}
    {ls : List Lexeme}
    (hWithin : Within [] [] s)
    (hRest : s.rest = l :: ls) :
    l.kind.closer? = none := by
  rcases hWithin with ⟨ms, hMs, hBehind⟩
  rw [List.append_nil] at hMs
  rw [← hMs, hRest] at hBehind
  rcases Nest.exists_of_behind?_cons hBehind with ⟨ds, hNext, _⟩
  cases hCloser : l.kind.closer? with
  | none => rfl
  | some d =>
      have hNil := Nest.next?_of_closer? hCloser hNext
      cases hNil

/- Where statements end in the smaller text they may end. -/
theorem boundaryError?_place
    (hEncloses : h.Encloses c cs)
    (hPoisoned : s.poisoned = false)
    (hNone : boundaryError? isTopLevelEnd s = (none, s)) :
    boundaryError? (· == c.kind) (h.place s) =
      (none, h.place s) := by
  cases hRest : s.rest with
  | nil =>
      rcases hEncloses.exists_ends with ⟨l, ls, hEnds⟩
      have hPlace : (h.place s).rest = l :: ls := by
        simp [Setting.place, hRest, hEnds.after]
      rw [boundaryError?_of_cons _ hPlace, if_pos]
      rw [hEncloses.stopsAt l ls hEnds, Bool.true_or]
  | cons l ls =>
      have hPlace : (h.place s).rest = l :: (ls ++ h.after) := by
        simp [Setting.place, hRest]
      have hSeparator : isSeparator l.kind = true := by
        rw [boundaryError?_of_cons _ hRest] at hNone
        cases hSeparator : isSeparator l.kind with
        | true => rfl
        | false =>
            rw [hSeparator, hPoisoned] at hNone
            cases hNone
      rw [boundaryError?_of_cons _ hPlace, if_pos]
      rw [hSeparator, Bool.true_or, Bool.true_or]

/-
  A statement in order is the same inside of delimiters, where
  it may end at the closing one.
-/
theorem statement_place
    (hExpr : Sound n expr)
    (hEncloses : h.Encloses c cs)
    (hFits : h.Fits false [] [] s)
    (hStarts : Starts isTopLevelEnd s.rest)
    (hErrors :
      (statement expr isTopLevelEnd s).2.errors = s.errors) :
    h.Fits false [] [] (statement expr isTopLevelEnd s).2 ∧
      statement expr (· == c.kind) (h.place s) =
        ((statement expr isTopLevelEnd s).1,
          h.place (statement expr isTopLevelEnd s).2) := by
  rcases hExpr.takes 0 .statement s with ⟨taken, hTakes⟩
  have hFinish := finishStatement_eq hTakes.toMoves hStarts
  rcases hFinish.2.2.2 with ⟨more, hMore⟩
  have hBoth := hTakes.toMoves.errors_eq hMore hErrors
  have hFits' := hFits.takes rfl hTakes hBoth.1
  rcases boundaryError?_of_errors_eq hTakes.toMoves hStarts
    hFits'.poisoned hBoth.2 with ⟨hNone, hLess⟩
  have hLeft :
      statement expr isTopLevelEnd s = expr 0 .statement s := by
    change (withTrailing (expr 0 .statement s).1
      (finishStatement isTopLevelEnd s.rest
        (expr 0 .statement s).2).1,
      (finishStatement isTopLevelEnd s.rest
        (expr 0 .statement s).2).2) = _
    rw [finishStatement_of_clean hFits'.poisoned hNone hLess]
    rfl
  have hTracks := (hExpr.run h false 0 .statement s).tracks
    (.inr ⟨⟨[], [], hFits, rfl⟩, hBoth.1⟩)
  have hPoisoned :
      (h.place (expr 0 .statement s).2).poisoned = false :=
    hFits'.poisoned
  have hNone' := boundaryError?_place hEncloses hFits'.poisoned hNone
  have hLess' :
      (h.place (expr 0 .statement s).2).rest.length <
        (s.rest ++ h.after).length := by
    change ((expr 0 .statement s).2.rest ++ h.after).length < _
    rw [List.length_append, List.length_append]
    omega
  rw [hLeft]
  refine ⟨hFits', ?_⟩
  change (withTrailing (expr 0 .statement (h.place s)).1
    (finishStatement (· == c.kind) (s.rest ++ h.after)
      (expr 0 .statement (h.place s)).2).1,
    (finishStatement (· == c.kind) (s.rest ++ h.after)
      (expr 0 .statement (h.place s)).2).2) = _
  rw [hTracks, finishStatement_of_clean hPoisoned hNone' hLess']
  rfl

------------------------------------------------------------
-- Lists of statements
------------------------------------------------------------

/-
  Statements in order are the same inside of delimiters. They
  end at the closing one.
-/
theorem statementsFor_place
    (hExpr : Sound n expr)
    (hEncloses : h.Encloses c cs)
    (hFits : h.Fits false [] [] s)
    (hBound : s.rest.length < k)
    (hBound' : s.rest.length < m)
    (hErrors :
      (statementsFor expr isTopLevelEnd k s).2.errors =
        s.errors) :
    (statementsFor expr (· == c.kind) m (h.place s)).1 =
        (statementsFor expr isTopLevelEnd k s).1 ∧
      (statementsFor expr (· == c.kind) m (h.place s)).2.rest =
        c :: cs ∧
      (statementsFor expr (· == c.kind) m
          (h.place s)).2.errors = h.errors ++ s.errors ∧
      (statementsFor expr (· == c.kind) m
        (h.place s)).2.poisoned = false := by
  induction k generalizing m s with
  | zero => omega
  | succ k ih =>
      cases m with
      | zero => omega
      | succ m =>
          have hLength := length_rest_skipSeparators s
          have hStarts := @starts_skipSeparators s isTopLevelEnd
          have hSkip := Steady.advance n
            (runLength isSeparator s.rest) s
          have hFits' : h.Fits false [] [] (skipSeparators s).2 := by
            have hFaultless := hFits.faultless
            rw [hSkip.rest, Faultless.append_iff] at hFaultless
            refine ⟨hFits.bounds, ?_, hFits.poisoned, hFaultless.2⟩
            apply hFits.within.skipSeparators rfl
            intro l hHead
            cases hHead
          have hNil := @Setting.Encloses.rest_skipSeparators s h c cs
            hEncloses
          have hPlace := @skipSeparators_place s h
          rw [statementsFor_succ] at hErrors ⊢
          rw [statementsFor_succ]
          have hErrors₁ : (skipSeparators s).2.errors = s.errors := rfl
          have hErrors₂ :
              (skipSeparators (h.place s)).2.errors =
                h.errors ++ s.errors := rfl
          have hPoisoned :
              (skipSeparators (h.place s)).2.poisoned = s.poisoned :=
            rfl
          generalize (skipSeparators s).2 = s₁ at *
          generalize (skipSeparators (h.place s)).2 = t₁ at *
          cases hRest : s₁.rest with
          | nil =>
              have hT := hNil hRest
              have hEnds :
                  endsAt (· == c.kind) t₁.rest.head? = true := by
                rw [hT]
                exact beq_self_eq_true c.kind
              rw [if_pos hEnds]
              exact ⟨rfl, hT, hErrors₂, hPoisoned.trans hFits.poisoned⟩
          | cons l ls =>
              have hT := hPlace (by rw [hRest]; simp)
              subst hT
              have hStart := hStarts (by rw [hRest]; rfl)
              have hOther :
                  ¬ endsAt (· == c.kind) (h.place s₁).rest.head? =
                    true := by
                change ¬ endsAt _ (s₁.rest ++ h.after).head? = true
                rw [hRest]
                intro hSame
                have hCloser := hEncloses.closer?
                rw [← eq_of_beq hSame,
                  hFits'.within.closer?_eq_none hRest] at hCloser
                cases hCloser
              rcases moves_statement hExpr hStart with
                ⟨⟨taken, hMoves⟩, hLess⟩
              have hMore :
                  Walk .any n true
                    (statementsFor expr isTopLevelEnd k)
                    (statementsFor expr isTopLevelEnd k)
                    (statement expr isTopLevelEnd s₁).2 := by
                apply Walk.statementsFor hExpr
                · omega
                · change _ + 0 < k
                  omega
              rcases hMore.moves with ⟨taken', hMoves'⟩
              have hGoes :
                  ¬ endsAt isTopLevelEnd (l :: ls).head? = true :=
                Bool.false_ne_true
              rw [hRest, if_neg hGoes] at hErrors
              rw [if_neg hGoes, if_neg hOther]
              have hBoth := hMoves.errors_eq hMoves'
                (hErrors.trans hErrors₁.symm)
              rcases statement_place hExpr hEncloses hFits' hStart
                hBoth.1 with ⟨hFits₂, hStatement⟩
              rcases @ih m _ hFits₂ (by omega) (by omega) hBoth.2 with
                ⟨hNodes, hRest', hErrors', hPoisoned'⟩
              simp only [Parse.bind_apply, hStatement]
              refine ⟨congrArg (List.cons _) hNodes, hRest', ?_,
                hPoisoned'⟩
              rw [← hErrors₁, ← hBoth.1]
              exact hErrors'

end ElixirReader
