import ElixirReader.Proofs.Parser.Containers
import ElixirReader.Parser.Block

/-
  This file compares runs over the bodies of blocks, which
  consist of statements or of clauses. Every item of a body
  takes a lexeme, and is done with its own errors.

  Main declarations:
    * `Run.clauseOrStatement`
    * `length_clauseOrStatement`
    * `Walk.body`
    * `Level.body`
-/

namespace ElixirReader

open Parse

variable {α β : Type}
variable {h : Setting}
variable {inside : Bool}
variable {n k m : Nat}
variable {s s' : ParseState}
variable {expr : ExpressionParser}
variable {stop : Kind → Bool}
variable {l : Lexeme}
variable {ls : List Lexeme}

------------------------------------------------------------
-- Heads of clauses
------------------------------------------------------------

theorem Run.finishHead
    (head : List Node)
    (guard : Option Node) :
    Run h n inside (Parse.finishHead head guard)
      (Parse.finishHead head guard) s := by
  unfold Parse.finishHead
  simp only
  split
  all_goals
    apply (Run.expect .arrow rfl rfl).bind
    rintro (e | arrow) s' _
    · exact Run.pure _
    · exact Run.pure _

theorem Run.headGuard
    (hExpr : Sound n expr) :
    Run h n true (Parse.headGuard expr)
      (Parse.headGuard expr) s := by
  apply Run.bind_eat rfl rfl
  · intro w s₁ _ _ _
    apply Run.skipLineEnds.bind
    intro _ s₂ _
    apply (hExpr.run h true _ .statement s₂).bind
    intro guard s₃ _
    exact Run.pure _
  · intro _
    exact Run.pure _

theorem Run.parenthesizedHead
    (hExpr : Sound n expr)
    (hRest : s.rest = l :: ls)
    (hOpening : l.kind = .opening .parenthesis) :
    Run h n true (Parse.parenthesizedHead expr)
      (Parse.parenthesizedHead expr) s := by
  apply (Run.enclosed hExpr hRest hOpening).bind
  rintro ⟨head, span⟩ s₁ _
  apply (Run.headGuard hExpr).bind
  intro guard s₂ _
  exact Run.finishHead _ _

/- The elements of a head behind a comma. -/
def headItemsBehind
    (expr : ExpressionParser)
    (k : Nat) : Parse (List Node) := do
  skipLineEnds
  if keywordAhead (← rest) then
    return [← keywords expr .container]
  else
    let item ← expr 0 .container
    return item :: (← headItemsFor expr k)

theorem headItemsFor_succ
    (expr : ExpressionParser)
    (k : Nat) :
    Parse.headItemsFor expr (k + 1) =
      eat .comma >>= fun comma =>
        match comma with
        | none => pure []
        | some _ => headItemsBehind expr k :=
  rfl

theorem Run.headItemsBehind
    (hExpr : Sound n expr)
    (hNext : ∀ s' : ParseState,
      s'.rest.length ≤ s.rest.length →
        Run h n true (Parse.headItemsFor expr k)
          (Parse.headItemsFor expr m) s') :
    Run h n true (ElixirReader.headItemsBehind expr k)
      (ElixirReader.headItemsBehind expr m) s := by
  apply Run.skipLineEnds.bind_le
  intro _ s₁ hLe _
  apply Run.keywordAhead
  · intro hAhead
    apply (Run.keywords hExpr hAhead).bind
    intro pairs s₂ _
    exact Run.pure _
  · intro _
    apply (hExpr.run h true 0 .container s₁).bind_le
    intro item s₂ hLe' _
    apply (hNext s₂ (by omega)).bind
    intro more s₃ _
    exact Run.pure _
  · intro hInside
    cases hInside

theorem Run.headItemsFor
    (hExpr : Sound n expr)
    (hBound : s.rest.length < k)
    (hBound' : s.rest.length + h.after.length < m) :
    Run h n true (Parse.headItemsFor expr k)
      (Parse.headItemsFor expr m) s := by
  induction k generalizing m s with
  | zero => omega
  | succ k ih =>
      cases m with
      | zero => omega
      | succ m =>
          rw [headItemsFor_succ, headItemsFor_succ]
          apply Run.bind_eat rfl rfl
          · intro comma s₁ hRest _ _
            have hLess := congrArg List.length hRest
            rw [List.length_cons] at hLess
            apply Run.headItemsBehind hExpr
            intro s' hLe
            exact ih (by omega) (by omega)
          · intro _
            exact Run.pure _

/- A comma is taken at least. -/
theorem length_headItemsFor
    (hExpr : Sound n expr)
    (hRest : s.rest = l :: ls)
    (hKind : l.kind = .comma)
    (hBound : s.rest.length < k) :
    (headItemsFor expr k s).2.rest.length <
      s.rest.length := by
  cases k with
  | zero => omega
  | succ k =>
      have hAdvance := (ParseState.take_one hRest).2
      rw [hRest, List.length_cons] at hBound ⊢
      have hBehind :
          Run Setting.any n true (headItemsBehind expr k)
            (headItemsBehind expr k) (s.advance 1) := by
        apply Run.headItemsBehind hExpr
        intro s' hLe
        rw [hAdvance] at hLe
        apply Run.headItemsFor hExpr
        · omega
        · change s'.rest.length + 0 < k
          omega
      have hLe := hBehind.length_le
      rw [hAdvance] at hLe
      rw [headItemsFor_succ, Parse.bind_apply,
        eat_of_cons hRest hKind]
      exact Nat.lt_succ_of_le hLe

------------------------------------------------------------
-- Clauses and statements
------------------------------------------------------------

/- The rest of a clause whose head starts with an expression. -/
def openClause
    (expr : ExpressionParser)
    (first : Node) : Parse Item := do
  let more ← headItemsFor expr ((← rest).length + 1)
  return .clause (← finishHead (first :: more) none)

theorem Run.openClause
    (hExpr : Sound n expr)
    (first : Node) :
    Run h n true (ElixirReader.openClause expr first)
      (ElixirReader.openClause expr first) s := by
  apply Run.bind_rest
  have hItems :
      Run h n true (Parse.headItemsFor expr (s.rest.length + 1))
        (Parse.headItemsFor expr
          ((s.rest ++ h.after).length + 1)) s := by
    apply Run.headItemsFor hExpr
    · omega
    · rw [List.length_append]
      omega
  apply hItems.bind
  intro more s₁ _
  apply (Run.finishHead _ _).bind
  intro c s₂ _
  exact Run.pure _

/- A comma or an arrow is taken at least. -/
theorem length_openClause
    (hExpr : Sound n expr)
    (first : Node)
    (hRest : s.rest = l :: ls)
    (hKind : l.kind = .comma ∨ l.kind = .operator .stab) :
    (openClause expr first s).2.rest.length <
      s.rest.length := by
  rw [openClause, Parse.bind_apply]
  change ((finishHead (first ::
    (headItemsFor expr (s.rest.length + 1) s).1) none)
    (headItemsFor expr (s.rest.length + 1) s).2).2.rest.length < _
  have hFinish := fun head s' =>
    (@Run.finishHead .any true 0 s' head none).length_le
  rcases hKind with hComma | hArrow
  · have hLess := length_headItemsFor hExpr hRest hComma
      (Nat.lt_succ_self s.rest.length)
    exact Nat.lt_of_le_of_lt (hFinish _ _) hLess
  · have hOther :
        ∀ m, s.rest.head? = some m → m.kind ≠ .comma := by
      intro m hHead
      rw [hRest] at hHead
      cases hHead
      rw [hArrow]
      simp
    have hNone :
        headItemsFor expr (s.rest.length + 1) s = ([], s) := by
      rw [headItemsFor_succ, Parse.bind_apply,
        eat_of_ne hOther]
      rfl
    rw [hNone]
    have hLess : (s.advance 1).rest.length < s.rest.length := by
      rw [(ParseState.take_one hRest).2, hRest,
        List.length_cons]
      exact Nat.lt_succ_self _
    have hEq :
        ∀ head, (finishHead head none s).2 = s.advance 1 := by
      intro head
      unfold finishHead
      simp only
      rw [Parse.bind_apply, expect_of_cons _ hRest hArrow]
      rfl
    rw [hEq]
    exact hLess

theorem Run.openClauseOrStatement
    (hExpr : Sound n expr) :
    Run h n true (Parse.openClauseOrStatement expr)
      (Parse.openClauseOrStatement expr) s := by
  apply (hExpr.run h true 0 .statement s).bind
  intro first s₁ _
  apply Run.bind_isAt rfl
  · intro comma ls _ _
    apply Run.bind_isAt rfl
    · intro arrow ls _ _
      exact Run.openClause hExpr first
    · intro _
      exact Run.openClause hExpr first
  · intro _
    apply Run.bind_isAt rfl
    · intro arrow ls _ _
      exact Run.openClause hExpr first
    · intro _
      exact Run.pure _

theorem Run.clauseOrStatement
    (hExpr : Sound n expr) :
    Run h n true (Parse.clauseOrStatement expr)
      (Parse.clauseOrStatement expr) s := by
  apply Run.bind_eat rfl rfl
  · intro arrow s₁ _ _ _
    exact Run.pure _
  · intro _
    apply Run.bind_rest
    apply Run.bind_isAt rfl
    · intro l ls hRest hKind
      apply Run.of_eq _ fun hSees => by
        rw [hSees.parenthesizedHeadAhead_append hRest hKind]
      split
      · apply (Run.parenthesizedHead hExpr hRest hKind).bind
        intro c s₁ _
        exact Run.pure _
      · exact Run.openClauseOrStatement hExpr
    · intro _
      exact Run.openClauseOrStatement hExpr

theorem length_openClauseOrStatement
    {c : Clause Node}
    (hExpr : Sound n expr)
    (hEq : openClauseOrStatement expr s = (.clause c, s')) :
    s'.rest.length < s.rest.length := by
  have hApply :
      openClauseOrStatement expr s =
        (if ((expr 0 .statement s).2.rest.head?.any
              (·.kind == .comma) ||
            (expr 0 .statement s).2.rest.head?.any
              (·.kind == .operator .stab)) = true
          then openClause expr (expr 0 .statement s).1
          else pure (.expression (expr 0 .statement s).1))
          (expr 0 .statement s).2 := by
    unfold openClauseOrStatement
    change (if _ then _ else _ : Parse _) _ = _
    split <;> rfl
  have hLe := (hExpr.run .any false 0 .statement s).length_le
  rw [hApply] at hEq
  generalize expr 0 .statement s = p at hEq hLe
  rcases p with ⟨first, s₁⟩
  change s₁.rest.length ≤ _ at hLe
  simp only at hEq
  split at hEq
  · rename_i hAhead
    cases hRest : s₁.rest with
    | nil =>
        rw [hRest] at hAhead
        simp at hAhead
    | cons l ls =>
        rw [hRest] at hAhead
        have hLess := length_openClause hExpr first hRest
          (by simpa using hAhead)
        rw [hEq] at hLess
        change s'.rest.length < _ at hLess
        omega
  · cases hEq

/- A clause takes a lexeme at least. -/
theorem length_clauseOrStatement
    {c : Clause Node}
    (hExpr : Sound n expr)
    (hEq : clauseOrStatement expr s = (.clause c, s')) :
    s'.rest.length < s.rest.length := by
  rw [clauseOrStatement, Parse.bind_apply] at hEq
  rcases head?_cases (.operator .stab) s with
    ⟨l, ls, hRest, hKind⟩ | hOther
  · rw [eat_of_cons hRest hKind] at hEq
    cases hEq
    rw [(ParseState.take_one hRest).2, hRest, List.length_cons]
    exact Nat.lt_succ_self _
  · rw [eat_of_ne hOther] at hEq
    change (if (s.rest.head?.any
        (·.kind == .opening .parenthesis) &&
          parenthesizedHeadAhead s.rest) = true
      then do return .clause (← parenthesizedHead expr)
      else openClauseOrStatement expr : Parse _) s = _ at hEq
    split at hEq
    · rename_i hAhead
      cases hRest : s.rest with
      | nil =>
          rw [hRest] at hAhead
          cases hAhead
      | cons l ls =>
          rw [← hRest]
          have hEnclosed :=
            length_enclosed .parenthesis hExpr hRest
          have hGuard :=
            (@Run.headGuard .any n
              (enclosed expr .parenthesis s).2 expr
              hExpr).length_le
          have hFinish := fun head guard s' =>
            (@Run.finishHead .any true 0 s' head
              guard).length_le
          have hLast :
              s'.rest.length ≤
                (headGuard expr
                  (enclosed expr .parenthesis s).2).2.rest.length := by
            have hState :
                ((parenthesizedHead expr >>= fun c =>
                  pure (Item.clause c)) s).2 = s' :=
              congrArg Prod.snd hEq
            rw [← hState]
            exact hFinish _ _ _
          omega
    · exact length_openClauseOrStatement hExpr hEq

theorem Run.checkFirstClause
    (expressions : List Node)
    (clauses : List (Clause Node))
    (c : Clause Node) :
    Run h n inside (Parse.checkFirstClause expressions clauses c)
      (Parse.checkFirstClause expressions clauses c) s := by
  unfold Parse.checkFirstClause
  split
  · apply (Run.failure _ _ _).bind
    intro e s' _
    exact Run.pure _
  · exact Run.pure _

------------------------------------------------------------
-- Bodies
------------------------------------------------------------

theorem Walk.recover
    (start : List Lexeme) :
    Walk h n inside (Parse.recover stop start)
      (Parse.recover stop (start ++ h.after)) s := by
  have hIdle :
      ∀ (start : List Lexeme) (s : ParseState),
        s.poisoned = false → recovered stop start s = s := by
    intro start s hClean
    unfold recovered
    rw [if_neg (by simp [hClean])]
  refine ⟨?_, ?_, ?_⟩
  · rw [recover_apply]
    exact moves_recovered n stop start s
  · intro hClean _
    rw [recover_apply, hIdle start s hClean.poisoned]
    exact hClean
  · rintro (hWhole | ⟨hClean, _⟩)
    · rw [recover_apply, recover_apply, hWhole.1,
        List.append_nil, hWhole.place_recovered]
    · have hPlace : (h.place s).poisoned = false :=
        hClean.poisoned
      rw [recover_apply, recover_apply,
        hIdle start s hClean.poisoned, hIdle _ _ hPlace]

theorem length_recovered
    (start : List Lexeme) :
    (recovered stop start s).rest.length ≤ s.rest.length := by
  rcases moves_recovered 0 stop start s with ⟨taken, hMoves⟩
  have hLength := hMoves.length_rest
  omega

theorem Walk.bodyFor
    (hExpr : Sound n expr)
    (expressions : List Node)
    (clauses : List (Clause Node))
    (hBound : s.rest.length < k)
    (hBound' : s.rest.length + h.after.length < m) :
    Walk h n true
      (Parse.bodyFor expr stop k expressions clauses)
      (Parse.bodyFor expr stop m expressions clauses) s := by
  induction k generalizing m s expressions clauses with
  | zero => omega
  | succ k ih =>
      cases m with
      | zero => omega
      | succ m =>
          apply Walk.skipSeparators.bind
          intro _ s₁ hSkip
          have hLength := length_rest_skipSeparators s
          have hStarts := @starts_skipSeparators s stop
          rw [hSkip] at hLength hStarts
          change s₁.rest.length ≤ s.rest.length at hLength
          apply Walk.bind_peek
          cases hEnds : endsAt stop s₁.rest.head? with
          | true => exact Walk.pure _
          | false =>
              have hItem :
                  Run h n true (Parse.clauseOrStatement expr)
                    (Parse.clauseOrStatement expr) s₁ :=
                Run.clauseOrStatement hExpr
              rcases hItem.takes with ⟨taken, hTakes⟩
              apply Walk.bind_rest
              apply hItem.walk.bind
              intro item s₂ hEq
              rw [hEq] at hTakes
              cases item with
              | clause c =>
                  have hLess := length_clauseOrStatement hExpr hEq
                  have hCheck :
                      Run h n true
                        (Parse.checkFirstClause expressions
                          clauses c)
                        (Parse.checkFirstClause expressions
                          clauses c) s₂ :=
                    Run.checkFirstClause _ _ _
                  have hLe := hCheck.length_le
                  apply hCheck.walk.bind
                  intro c' s₃ hC
                  rw [hC] at hLe
                  change s₃.rest.length ≤ _ at hLe
                  apply (Walk.recover s₁.rest).bind
                  intro _ s₄ hRecover
                  have hLe' := @length_recovered s₃ stop s₁.rest
                  rw [recover_apply] at hRecover
                  cases hRecover
                  exact ih _ _ (by omega) (by omega)
              | expression node =>
                  have hStart := hStarts hEnds
                  have hLess := (finishStatement_eq
                    hTakes.toMoves hStart).2.2.1
                  apply (Walk.finishStatement hTakes.toMoves
                    hStart (.inl rfl)).bind
                  intro trailing s₃ hFinish
                  rw [hFinish] at hLess
                  change s₃.rest.length < _ at hLess
                  simp only
                  split
                  · exact ih _ _ (by omega) (by omega)
                  · exact ih _ _ (by omega) (by omega)

theorem Walk.body
    (hExpr : Sound n expr) :
    Walk h n true (Parse.body expr stop)
      (Parse.body expr stop) s := by
  apply Walk.bind_rest
  apply Walk.isolated
  intro s' hRest
  apply Walk.bodyFor hExpr
  · rw [hRest]
    omega
  · rw [hRest, List.length_append]
    omega

/- What follows an item that was read from a place. -/
def bodyItem
    (expr : ExpressionParser)
    (stop : Kind → Bool)
    (k : Nat)
    (expressions : List Node)
    (clauses : List (Clause Node))
    (start : List Lexeme) : Item → Parse (Body Node)
| .clause c => do
    let c ← checkFirstClause expressions clauses c
    Parse.recover stop start
    bodyFor expr stop k expressions (clauses ++ [c])
| .expression node => do
    let node := withTrailing node
      (← Parse.finishStatement stop start)
    if clauses.isEmpty then
      bodyFor expr stop k (expressions ++ [node]) clauses
    else
      bodyFor expr stop k expressions
        (Clause.pushLast node clauses)

theorem bodyFor_succ
    (expressions : List Node)
    (clauses : List (Clause Node))
    (s : ParseState) :
    bodyFor expr stop (k + 1) expressions clauses s =
      (if endsAt stop (skipSeparators s).2.rest.head? then
        return bodyOf expressions clauses
      else do
        let item ← clauseOrStatement expr
        bodyItem expr stop k expressions clauses
          (skipSeparators s).2.rest item :
        Parse _) (skipSeparators s).2 := by
  rw [bodyFor, Parse.bind_apply, Parse.bind_apply]
  change (if endsAt stop (skipSeparators s).2.rest.head? = true
    then _ else _ : Parse _) _ = _
  cases endsAt stop (skipSeparators s).2.rest.head? <;> rfl

theorem bodyItem_clause
    (expressions : List Node)
    (clauses : List (Clause Node))
    (start : List Lexeme)
    (c : Clause Node)
    (s : ParseState) :
    bodyItem expr stop k expressions clauses start (.clause c)
        s =
      bodyFor expr stop k expressions
        (clauses ++ [(checkFirstClause expressions clauses c
          s).1])
        (recovered stop start
          (checkFirstClause expressions clauses c s).2) := by
  rw [bodyItem, Parse.bind_apply, Parse.bind_apply,
    recover_apply]

/- Items that start with nothing open, up to a barrier. -/
theorem within_bodyFor
    (hExpr : Sound n expr)
    (expressions : List Node)
    (clauses : List (Clause Node))
    (hBound : s.rest.length < k)
    (hClean : s.poisoned = false)
    (hWithin : Within [] (l :: ls) s)
    (hBarrier : l.kind.isBarrier = true)
    (hStop : stop l.kind = true)
    (hSeparator : isSeparator l.kind = false) :
    Within [] (l :: ls)
        (bodyFor expr stop k expressions clauses s).2 ∧
      ∃ m ms,
        (bodyFor expr stop k expressions clauses s).2.rest =
            m :: ms ∧
          stop m.kind = true := by
  induction k generalizing s expressions clauses with
  | zero => omega
  | succ k ih =>
      have hLength := length_rest_skipSeparators s
      have hStarts := @starts_skipSeparators s stop
      have hWithin' := hWithin.skipSeparators rfl (by
        intro m hHead
        cases hHead
        exact hSeparator)
      have hClean' : (skipSeparators s).2.poisoned = false :=
        hClean
      rw [bodyFor_succ]
      generalize (skipSeparators s).2 = s₁ at *
      cases hEnds : endsAt stop s₁.rest.head? with
      | true =>
          exact ⟨hWithin', exists_of_endsAt hWithin' hEnds⟩
      | false =>
          have hItem :
              Run .any n true (clauseOrStatement expr)
                (clauseOrStatement expr) s₁ :=
            Run.clauseOrStatement hExpr
          have hAfter : Stops stop (l :: ls) := by
            simp [Stops, hStop]
          rcases hItem.takes with ⟨taken, hTakes⟩
          rw [if_neg Bool.false_ne_true, Parse.bind_apply]
          generalize hEq : clauseOrStatement expr s₁ = r
            at hTakes
          rcases r with ⟨item, s₂⟩
          cases item with
          | clause c =>
              have hCheck :
                  Run .any n true
                    (checkFirstClause expressions clauses c)
                    (checkFirstClause expressions clauses c)
                    s₂ := Run.checkFirstClause _ _ _
              rcases hCheck.takes with ⟨more, hMore⟩
              have hBoth := hTakes.trans hMore
              rcases hBoth.within [] (l :: ls) hBarrier hWithin'
                with ⟨ds, hDs, _, hCode⟩
              have hLess := length_clauseOrStatement hExpr hEq
              have hLe := hCheck.length_le
              have hLe' := @length_recovered
                (checkFirstClause expressions clauses c s₂).2
                stop s₁.rest
              simp only [bodyItem_clause]
              apply ih
              · omega
              · exact poisoned_recovered _ _ _
              · exact within_recovered hBoth.toMoves hWithin'
                  hAfter ⟨ds, hDs, (hCode rfl).1⟩
          | expression node =>
              rcases hTakes.within [] (l :: ls) hBarrier hWithin'
                with ⟨ds, hDs, _, hCode⟩
              have hStart := hStarts hEnds
              have hLess := (finishStatement_eq
                hTakes.toMoves hStart).2.2.1
              have hFinish := within_finishStatement
                hTakes.toMoves hStart hWithin' hAfter
                ⟨ds, hDs, (hCode rfl).1⟩
              change (Parse.finishStatement stop s₁.rest
                s₂).2.rest.length < _ at hLess
              simp only [bodyItem]
              rw [Parse.bind_apply]
              split
              · exact ih _ _ (by omega) hFinish.2 hFinish.1
              · exact ih _ _ (by omega) hFinish.2 hFinish.1

theorem within_body
    (hExpr : Sound n expr)
    (hWithin : Within [] (l :: ls) s)
    (hBarrier : l.kind.isBarrier = true)
    (hStop : stop l.kind = true)
    (hSeparator : isSeparator l.kind = false) :
    Within [] (l :: ls) (body expr stop s).2 ∧
      ∃ m ms, (body expr stop s).2.rest = m :: ms ∧
        stop m.kind = true :=
  within_bodyFor hExpr [] []
    (s := { s with poisoned := false })
    (Nat.lt_succ_self _) rfl hWithin hBarrier hStop hSeparator

end ElixirReader
