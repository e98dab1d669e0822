import ElixirReader.Proofs.Diagnosis.Watching

/-
  This file follows fair errors through statements and through
  the texts of literals. A statement that is in order and goes
  on at a character without a place is where such a character
  is blamed twice.

  Key definitions include:
    * `StopsInOrder`

  Main declarations:
    * `Watches.finishStatement`
    * `Watches.statements`
    * `Watches.interpolation`
    * `Watches.text`
-/

namespace ElixirReader

open Parse

variable {all ms : List Lexeme}
variable {l : Lexeme}
variable {k : Nat}
variable {s : ParseState}
variable {expr : ExpressionParser}
variable {stop : Kind → Bool}

/- Statements stop at lexemes in order. -/
def StopsInOrder
    (stop : Kind → Bool) : Prop :=
  ∀ kind, stop kind = true → kind.isFaulty = false

theorem Kind.of_isSeparator
    {k : Kind}
    (hSeparator : isSeparator k = true) :
    k.isFaulty = false ∧ k.isNumberPart = false := by
  simp only [isSeparator, Bool.or_eq_true, beq_iff_eq]
    at hSeparator
  rcases hSeparator with rfl | rfl <;> exact ⟨rfl, rfl⟩

/- Where statements may end there are no faulty digits. -/
theorem Stops.noDigits
    {rest : List Lexeme}
    (hStop : StopsInOrder stop)
    (hStops : Stops stop rest) :
    NoDigits rest := by
  rintro l ms rfl
  have hEither : (isSeparator l.kind || stop l.kind) = true :=
    hStops
  apply Kind.isBadNumber_of_isFaulty
  rcases Bool.or_eq_true_iff.mp hEither with hSeparator | hEnds
  · exact (Kind.of_isSeparator hSeparator).1
  · exact hStop l.kind hEnds

namespace Watches

------------------------------------------------------------
-- Statements
------------------------------------------------------------

/- What follows a statement in order is quoted. -/
theorem boundaryError?
    (hSettled : Live s → Settled all s.rest) :
    Watches all (reaches (Stops stop))
      (Parse.boundaryError? stop) s := by
  cases hRest : s.rest with
  | nil =>
      have hNone : Watches all (reaches (Stops stop))
          (Pure.pure none : Parse (Option Node)) s := by
        apply pure
        intro _
        rw [hRest]
        trivial
      exact hNone.of_eq (boundaryError?_of_nil stop hRest)
  | cons l ms =>
      by_cases hEnds :
          (isSeparator l.kind || stop l.kind || s.poisoned) = true
      · have hNone : Watches all (reaches (Stops stop))
            (Pure.pure none : Parse (Option Node)) s := by
          apply pure
          rintro ⟨hClean, _⟩
          rw [hRest]
          simpa [Stops, hClean] using hEnds
        apply hNone.of_eq
        rw [boundaryError?_of_cons stop hRest, if_pos hEnds]
        rfl
      · have hSome : Watches all (reaches (Stops stop))
            (do return some (← Parse.failure
              (.unexpectedToken l.describe) l.span l.span)) s := by
          apply (failure_of_cons l.span hRest rfl
            fun hLive => (hSettled hLive).toClosable).bind
          intro e s' hPoisoned
          apply pure
          exact fun hLive =>
            absurd hLive (not_live_of_poisoned hPoisoned)
        apply hSome.of_eq
        rw [boundaryError?_of_cons stop hRest, if_neg hEnds]
        rfl

/- A faulty statement is left for a place where one may end. -/
theorem recover
    {place : List Lexeme → Prop}
    (start : List Lexeme)
    (hStops : ∀ ls, Stops stop ls → place ls)
    (hPlace : Live s → place s.rest) :
    Watches all (fun _ s' => s'.cutShort = false → place s'.rest)
      (Parse.recover stop start) s := by
  intro hWatched
  rw [recover_apply]
  unfold recovered
  split
  · refine ⟨(hWatched.advance _).congr rfl rfl rfl id, ?_⟩
    intro _
    exact hStops _ (stops_drop_recoveryLength stop _ _)
  · rename_i hPoisoned
    refine ⟨hWatched, ?_⟩
    exact fun hWhole => hPlace ⟨by simpa using hPoisoned, hWhole⟩

theorem ensureProgress
    (start : List Lexeme)
    (hStop : StopsInOrder stop)
    (hStops : s.cutShort = false → Stops stop s.rest) :
    Watches all
      (fun _ s' => s'.cutShort = false → NoDigits s'.rest)
      (Parse.ensureProgress stop start) s := by
  intro hWatched
  rw [ensureProgress_apply]
  unfold progressed
  split
  · rename_i hStuck
    refine ⟨hWatched.advance 1, ?_⟩
    intro hWhole
    rcases exists_of_head?_any hStuck.2 with
      ⟨l, ms, hRest, hKind⟩
    rw [(ParseState.take_one hRest).2]
    have hHere := hStops hWhole
    rw [hRest] at hHere
    have hEither : (isSeparator l.kind || stop l.kind) = true :=
      hHere
    have hSeparator : isSeparator l.kind = true := by
      simpa [show stop l.kind = false by simpa using hKind]
        using hEither
    exact (hWatched.behind hRest).noDigits
      (Kind.of_isSeparator hSeparator).2
  · exact ⟨hWatched,
      fun hWhole => (hStops hWhole).noDigits hStop⟩

theorem finishStatement
    (start : List Lexeme)
    (hStop : StopsInOrder stop)
    (hSettled : Live s → Settled all s.rest) :
    Watches all
      (fun _ s' => s'.cutShort = false → NoDigits s'.rest)
      (Parse.finishStatement stop start) s := by
  apply (boundaryError? hSettled).bind
  intro trailing s₁ hStops
  apply (recover start (fun _ => id) hStops).bind
  intro _ s₂ hStops
  apply (ensureProgress start hStop hStops).bind
  intro _ s₃ hDigits
  exact pure hDigits

theorem skipSeparators
    (hDigits : s.cutShort = false → NoDigits s.rest) :
    Watches all
      (fun _ s' => s'.cutShort = false → NoDigits s'.rest)
      Parse.skipSeparators s := by
  apply (skipRun isSeparator).mono
  rintro _ s' _ ⟨hSame | ⟨l, hKind, hBehind⟩, _, hCut⟩ hWhole
  · rw [hSame]
    rw [hCut] at hWhole
    exact hDigits hWhole
  · exact hBehind.noDigits (Kind.of_isSeparator hKind).2

/- Where a statement starts something is left. -/
theorem ready_of_not_endsAt
    (hDigits : s.cutShort = false → NoDigits s.rest)
    (hEnds : ¬ endsAt stop s.rest.head? = true)
    (hLive : Live s) :
    Ready all s.rest := by
  refine ⟨hDigits hLive.2, ?_⟩
  intro hNil
  rw [hNil] at hEnds
  exact absurd rfl hEnds

theorem closable_of_endsAt
    (hStop : StopsInOrder stop)
    (hEnds : endsAt stop s.rest.head? = true) :
    Closable all s.rest := by
  apply Closable.of_head
  intro l ms hRest
  rw [hRest] at hEnds
  exact hStop l.kind hEnds

theorem statement
    (hExpr : Careful all expr)
    (hStop : StopsInOrder stop)
    (hReady : Live s → Ready all s.rest) :
    Watches all
      (fun _ s' => s'.cutShort = false → NoDigits s'.rest)
      (Parse.statement expr stop) s := by
  apply bind_rest
  apply (hExpr 0 .statement s hReady).bind
  intro node s₁ hSettled
  apply (finishStatement s.rest hStop hSettled).bind
  intro trailing s₂ hDigits
  exact pure hDigits

theorem statementsFor
    (hExpr : Careful all expr)
    (hStop : StopsInOrder stop)
    (hDigits : s.cutShort = false → NoDigits s.rest) :
    Watches all (finishes all) (Parse.statementsFor expr stop k)
      s := by
  induction k generalizing s with
  | zero =>
      apply cutOff
      intro s' hCut hWhole
      rw [hCut] at hWhole
      cases hWhole
  | succ k ih =>
      apply (skipSeparators hDigits).bind
      intro _ s₁ hDigits₁
      apply bind_peek
      split
      · rename_i hEnds
        exact pure fun _ => closable_of_endsAt hStop hEnds
      · rename_i hEnds
        apply (statement hExpr hStop
          (ready_of_not_endsAt hDigits₁ hEnds)).bind
        intro node s₂ hDigits₂
        apply (ih hDigits₂).bind
        intro nodes s₃ hClosable
        exact pure hClosable

theorem statements
    (hExpr : Careful all expr)
    (hStop : StopsInOrder stop)
    (hDigits : NoDigits s.rest) :
    Watches all (finishes all) (Parse.statements expr stop)
      s := by
  apply bind_rest
  apply isolated
    (P := fun rest cut => cut = false → Closable all rest)
  exact statementsFor hExpr hStop fun _ => hDigits

------------------------------------------------------------
-- Interpolations
------------------------------------------------------------

theorem interpolationEnd
    {opened : Span}
    (hOpened : Covers all opened) :
    Watches all (fun span _ => Covers all span)
      (Parse.interpolationEnd opened) s := by
  apply bind_eat
  · intro l s' _ _
    exact pure (hOpened.merge l.span)
  · intro _
    apply poison.bind
    intro _ s' _
    exact bind_previousSpan (pure (hOpened.merge _))

theorem stopsInOrder_interpolationEnd :
    StopsInOrder (· == .interpolationEnd) := by
  intro kind hKind
  rw [eq_of_beq hKind]
  rfl

theorem interpolation
    (hExpr : Careful all expr)
    (hRest : s.rest = l :: ms)
    (hKind : l.kind = .interpolationStart) :
    Watches all (fun n _ => Covers all n.span)
      (Parse.interpolation expr l.span) s := by
  apply bind_skip_one hRest
  intro s₁ _ hBehind
  have hApart : l.kind.isApart = true := by
    rw [hKind]
    rfl
  apply (statements hExpr stopsInOrder_interpolationEnd
    (hBehind.ready hApart).digits).bind
  intro body s₂ _
  apply (interpolationEnd (hBehind.covers hApart)).bind
  intro span s₃ hCovers
  exact pure hCovers

------------------------------------------------------------
-- Literals
------------------------------------------------------------

/-
  The span of a text covers its promoter. Behind a terminator
  anything may be expected.
-/
theorem segmentsFor
    {span : Span}
    (hExpr : Careful all expr)
    (hSpan : Covers all span) :
    Watches all
      (fun i s' => Covers all i.span ∧
        (i.closed = true → Settled all s'.rest))
      (Parse.segmentsFor expr k span) s := by
  induction k generalizing s span with
  | zero => exact cutOff fun s' _ => ⟨hSpan, fun hNo => nomatch hNo⟩
  | succ k ih =>
      have hEnd : Watches all
          (fun i s' => Covers all i.span ∧
            (i.closed = true → Settled all s'.rest))
          (Pure.pure (⟨[], span, false⟩ : Inside)) s :=
        pure ⟨hSpan, fun hNo => nomatch hNo⟩
      apply bind_peek
      cases hRest : s.rest with
      | nil => exact hEnd
      | cons l ms =>
          simp only [List.head?_cons]
          split
          · apply bind_skip_one hRest
            intro s₁ _ _
            apply (ih (hSpan.merge l.span)).bind
            intro i s₂ hInside
            exact pure hInside
          · split
            · rename_i hKind
              apply (interpolation hExpr hRest hKind).bind
              intro node s₁ _
              apply (ih (hSpan.merge node.span)).bind
              intro i s₂ hInside
              exact pure hInside
            · split
              · rename_i hTerminator
                apply bind_skip_one hRest
                intro s₁ _ hBehind
                apply pure
                refine ⟨hSpan.merge l.span, fun _ => ?_⟩
                apply hBehind.settled
                generalize l.kind = kind at hTerminator
                cases kind <;> first | rfl | cases hTerminator
              · exact hEnd

theorem startText
    (heredoc : Bool) :
    Watches all (fun _ _ => True)
      (ElixirReader.startText heredoc) s := by
  intro hWatched
  refine ⟨?_, trivial⟩
  change Watched all (textStart heredoc s)
  cases heredoc with
  | false => exact hWatched
  | true =>
      change Watched all (heredocStart s).2
      rw [heredocStart_apply]
      apply Watched.advance
      cases lineLength s.rest != 0 with
      | false => exact hWatched
      | true => exact hWatched.congr rfl rfl rfl id

/- A text that is not ended is not blamed again. -/
theorem endedSegments
    {span : Span}
    (hExpr : Careful all expr)
    (hSpan : Covers all span) :
    Watches all
      (fun i s' => Covers all i.span ∧
        (Live s' → Settled all s'.rest))
      (ElixirReader.endedSegments expr k span) s := by
  intro hWatched
  rcases segmentsFor (k := k) hExpr hSpan hWatched with
    ⟨hInside, hCovers, hSettled⟩
  have hEq :
      ElixirReader.endedSegments expr k span s =
        ((Parse.segmentsFor expr k span s).1,
          ElixirReader.poisonedIf
            (!(Parse.segmentsFor expr k span s).1.closed)
            (Parse.segmentsFor expr k span s).2) := rfl
  rw [hEq]
  cases hClosed : (Parse.segmentsFor expr k span s).1.closed with
  | true => exact ⟨hInside, hCovers, fun _ => hSettled hClosed⟩
  | false =>
      refine ⟨hInside.congr rfl rfl rfl id, hCovers, ?_⟩
      exact fun hLive => absurd hLive (not_live_of_poisoned rfl)

theorem text
    (hExpr : Careful all expr)
    (hRest : s.rest = l :: ms)
    (hApart : l.kind.isApart = true) :
    Watches all
      (fun r s' => Covers all r.2 ∧
        (Live s' → Settled all s'.rest))
      (Parse.text expr) s := by
  have hAll : Watches all
      (fun r s' => Covers all r.2 ∧
        (Live s' → Settled all s'.rest))
      (do
        Parse.skip 1
        ElixirReader.startText (promoterText (some l)).2
        let i ← ElixirReader.endedSegments expr
          ((← Parse.rest).length + 1) l.span
        return textOf (promoterText (some l)).1
          (promoterText (some l)).2 i) s := by
    apply bind_skip_one hRest
    intro s₁ _ hBehind
    apply (startText _).bind
    intro _ s₂ _
    apply bind_rest
    apply (endedSegments hExpr (hBehind.covers hApart)).bind
    intro i s₃ hInside
    exact pure hInside
  exact hAll.of_eq (text_eq_of_cons hRest)

end Watches

end ElixirReader
