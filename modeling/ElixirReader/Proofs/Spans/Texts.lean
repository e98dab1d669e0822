import ElixirReader.Proofs.Errors.Texts
import ElixirReader.Proofs.Spans.Proceeding

/-
  This file follows places through statements and through the
  texts of literals. The span of a text holds its
  interpolations, whether the text is ended or not.

  Key definitions include:
    * `Spanned`
    * `Quotes`

  Main declarations:
    * `Proceeds.statements`
    * `Proceeds.interpolation`
    * `Proceeds.segmentsFor`
    * `Proceeds.text`
-/

namespace ElixirReader

open Parse

variable {α : Type}
variable {a k : Nat}
variable {l : Lexeme}
variable {ls : List Lexeme}
variable {s : ParseState}
variable {expr : ExpressionParser}
variable {stop : Kind → Bool}

------------------------------------------------------------
-- Statements
------------------------------------------------------------

/- What stands where a statement should have ended is an error. -/
theorem Fits.withTrailing
    {node : Node}
    {trailing : Option Node}
    {b b' : Nat}
    (hNode : Fits a [node] b)
    (hLe : b ≤ b')
    (hTrailing : ∀ e, trailing = some e →
      e.containsError = true) :
    Fits a [Parse.withTrailing node trailing] b' := by
  cases trailing with
  | none => exact hNode.mono (Nat.le_refl a) hLe
  | some e =>
      apply Fits.of_hasError
      rw [hasError_cons, hasError_withTrailing]
      simp [hTrailing e rfl]

namespace Proceeds

theorem boundaryError? :
    Proceeds
      (fun trailing _ => ∀ e, trailing = some e →
        e.containsError = true)
      (Parse.boundaryError? stop) s := by
  have hNone : Proceeds
      (fun trailing _ => ∀ e, trailing = some e →
        e.containsError = true)
      (Pure.pure none : Parse (Option Node)) s :=
    pure fun e hSome => by cases hSome
  cases hRest : s.rest with
  | nil =>
      apply hNone.of_eq
      exact boundaryError?_of_nil stop hRest
  | cons l ls =>
      by_cases hEnds :
          (isSeparator l.kind || stop l.kind || s.poisoned) = true
      · apply hNone.of_eq
        rw [boundaryError?_of_cons stop hRest, if_pos hEnds]
        rfl
      · have hSome : Proceeds
            (fun trailing _ => ∀ e, trailing = some e →
              e.containsError = true)
            (do return some (← Parse.failure
              (.unexpectedToken l.describe) l.span l.span)) s := by
          apply (failure _ l.span l.span).bind
          intro e s' _ _ hError
          apply pure
          intro e' hSame
          cases hSame
          exact hError
        apply hSome.of_eq
        rw [boundaryError?_of_cons stop hRest, if_neg hEnds]
        rfl

theorem recover
    (start : List Lexeme) :
    Proceeds anything (Parse.recover stop start) s := by
  intro hPlaced
  rw [recover_apply]
  refine ⟨?_, trivial⟩
  unfold recovered
  split
  · have hAdvance := Onward.advance
      (recoveryLength stop (openDepth (takenSince start s.rest))
        s.rest) hPlaced
    exact hAdvance.trans (Onward.of_eq hAdvance.placed rfl rfl)
  · exact Onward.refl hPlaced

theorem ensureProgress
    (start : List Lexeme) :
    Proceeds anything (Parse.ensureProgress stop start) s := by
  intro hPlaced
  rw [ensureProgress_apply]
  refine ⟨?_, trivial⟩
  unfold progressed
  split
  · exact Onward.advance 1 hPlaced
  · exact Onward.refl hPlaced

theorem finishStatement
    (start : List Lexeme) :
    Proceeds
      (fun trailing _ => ∀ e, trailing = some e →
        e.containsError = true)
      (Parse.finishStatement stop start) s := by
  apply boundaryError?.bind
  intro trailing s₁ _ _ hTrailing
  apply (recover start).bind
  intro _ s₂ _ _ _
  apply (ensureProgress start).bind
  intro _ s₃ _ _ _
  exact pure hTrailing

theorem statement
    (hExpr : Orderly expr) :
    Proceeds (laid nodeOf s.reach) (Parse.statement expr stop)
      s := by
  apply bind_rest
  apply (hExpr 0 .statement s).bind
  intro node s₁ _ _ hNode
  apply (finishStatement s.rest).bind
  intro trailing s₂ _ hOnward hTrailing
  exact pure (Fits.withTrailing hNode hOnward.reach hTrailing)

theorem statementsFor
    (hExpr : Orderly expr) :
    Proceeds (laid nodesOf s.reach)
      (Parse.statementsFor expr stop k) s := by
  induction k generalizing s with
  | zero =>
      exact cutOff fun s' hSame =>
        .nil (Nat.le_of_eq hSame.symm)
  | succ k ih =>
      apply skipSeparators.bind
      intro _ s₁ _ hSkip _
      apply bind_peek
      split
      · exact pure (.nil hSkip.reach)
      · apply (statement hExpr).bind
        intro node s₂ _ _ hNode
        apply ih.bind
        intro nodes s₃ _ _ hNodes
        apply pure
        exact (Fits.cons hNode hNodes).mono hSkip.reach
          (Nat.le_refl _)

theorem statements
    (hExpr : Orderly expr) :
    Proceeds (laid nodesOf s.reach) (Parse.statements expr stop)
      s := by
  apply bind_rest
  apply isolated
    (P := fun ns b => Fits s.reach (nodesOf ns) b)
  exact statementsFor hExpr

end Proceeds

------------------------------------------------------------
-- Interpolations
------------------------------------------------------------

/-
  A span that starts with another one and ends no later than
  at some place.
-/
structure Spanned
    (opened span : Span)
    (b : Nat) : Prop where
  start : span.start = opened.start
  le : opened.stop ≤ span.stop
  stop : span.stop ≤ b

namespace Proceeds

/-
  The end of an interpolation. Where it is not found the span
  goes as far as what was taken.
-/
theorem interpolationEnd
    {opened : Span}
    (hOpened : opened.start ≤ opened.stop)
    (hReach : opened.stop ≤ s.reach)
    (hBefore : ∃ x, s.before = some x ∧
      opened.start ≤ x.start) :
    Proceeds
      (fun span s' => Spanned opened span s'.reach ∧
        s.reach ≤ span.stop)
      (Parse.interpolationEnd opened) s := by
  apply (eat .interpolationEnd).bind
  intro found s₁ hEq hOnward hFound
  cases found with
  | some l =>
      have hTook := hFound l rfl
      have hStart := hTook.start
      have hStop := hTook.le
      have hEnd := hTook.reach_eq
      apply pure
      refine ⟨⟨?_, ?_, ?_⟩, ?_⟩ <;>
        simp only [Span.start_merge, Span.stop_merge] <;> omega
  | none =>
      apply poison.bind
      rintro _ s₂ hPoison _ _
      have hNone :
          ∀ l, s.rest.head? = some l →
            l.kind ≠ .interpolationEnd := by
        intro l hHead hKind
        rcases List.head?_eq_some_iff.mp hHead with ⟨ls, hRest⟩
        rw [eat_of_cons hRest hKind] at hEq
        cases hEq
      rw [eat_of_ne hNone] at hEq
      cases hEq
      cases hPoison
      rcases hBefore with ⟨x, hX, hStart⟩
      apply bind_previousSpan
      apply pure
      have hPrevious :
          ParseState.previousSpan { s with poisoned := true } =
            x := by
        simp [ParseState.previousSpan, hX]
      have hStop : s.reach = x.stop := by
        simp [ParseState.reach, hX]
      have hSame :
          ParseState.reach { s with poisoned := true } =
            s.reach := rfl
      rw [hPrevious, hSame]
      refine ⟨⟨?_, ?_, ?_⟩, ?_⟩ <;>
        simp only [Span.start_merge, Span.stop_merge] <;> omega

theorem interpolation
    (hExpr : Orderly expr)
    (hRest : s.rest = l :: ls) :
    Proceeds
      (fun n s' => Spanned l.span n.span s'.reach ∧
        Fits l.span.start [n] n.span.stop)
      (Parse.interpolation expr l.span) s := by
  apply bind_skip_one hRest
  intro s₁ _ hBefore _ hTook
  have hReach := hTook.reach_eq
  apply (statements hExpr).bind
  intro body s₂ _ hOnward hBody
  have hPrevious : ∃ x, s₂.before = some x ∧
      l.span.start ≤ x.start := by
    rcases hOnward.before with hSame | ⟨x, hX, hStart⟩
    · exact ⟨l.span, hSame.trans hBefore, Nat.le_refl _⟩
    · have hLe := hTook.le
      exact ⟨x, hX, by omega⟩
  have hPlace := hOnward.reach
  rw [hReach] at hPlace
  apply (interpolationEnd hTook.le hPlace hPrevious).bind
  rintro span s₃ _ _ ⟨hSpanned, hStop⟩
  apply pure
  refine ⟨hSpanned, ?_⟩
  have hStart : span.start ≤ s₁.reach := by
    rw [hSpanned.start, hReach]
    exact hTook.le
  exact (Holds.of_fits (hBody.mono hStart hStop)
    (Nat.le_of_eq hSpanned.start.symm) (Nat.le_refl _)).fits
      rfl

------------------------------------------------------------
-- Segments
------------------------------------------------------------

/-
  Segments stretch the span before them. Their trees lie
  behind any offset that lies in it.
-/
theorem segmentsFor
    {span : Span}
    (hExpr : Orderly expr)
    (hSpan : span.start ≤ span.stop)
    (hReach : span.stop ≤ s.reach)
    (hOffset : a ≤ span.stop) :
    Proceeds
      (fun i s' => Spanned span i.span s'.reach ∧
        Fits a (insideNodes i) i.span.stop)
      (Parse.segmentsFor expr k span) s := by
  induction k generalizing s span a with
  | zero =>
      apply cutOff
      intro s' hSame
      rw [hSame]
      exact ⟨⟨rfl, Nat.le_refl _, hReach⟩, .nil hOffset⟩
  | succ k ih =>
      have hEnd : Proceeds
          (fun i s' => Spanned span i.span s'.reach ∧
            Fits a (insideNodes i) i.span.stop)
          (Pure.pure (⟨[], span, false⟩ : Inside)) s :=
        pure ⟨⟨rfl, Nat.le_refl _, hReach⟩, .nil hOffset⟩
      apply bind_peek
      cases hRest : s.rest with
      | nil => exact hEnd
      | cons l ls =>
          simp only [List.head?_cons]
          cases hPlain : plainSegment? l with
          | some segment =>
              apply bind_skip_one hRest
              intro s₁ _ _ _ hTook
              have hStart := hTook.start
              have hStop := hTook.le
              have hPlace := hTook.reach_eq
              have hMore :=
                @ih a s₁ (span.merge l.span)
                  (by rw [Span.start_merge, Span.stop_merge]; omega)
                  (by rw [Span.stop_merge]; omega)
                  (by rw [Span.stop_merge]; omega)
              apply hMore.bind
              rintro i s₂ _ _ ⟨hSpanned, hFits⟩
              rcases hSpanned with ⟨hFirst, hLe, hLast⟩
              rw [Span.start_merge] at hFirst
              rw [Span.stop_merge] at hLe
              apply pure
              refine ⟨⟨?_, ?_, hLast⟩, ?_⟩
              · change i.span.start = span.start
                omega
              · change span.stop ≤ i.span.stop
                omega
              · have hNodes : insideNodes
                    { i with segments := segment :: i.segments } =
                      insideNodes i := by
                  simp [insideNodes, nodes_plainSegment? hPlain]
                rw [hNodes]
                exact hFits
          | none =>
              simp only
              split
              · apply of_placed
                intro hPlaced
                have hTaken := took_of_cons hPlaced hRest
                have hStart := hTaken.start
                have hStop := hTaken.le
                apply (interpolation hExpr hRest).bind
                rintro node s₁ _ _ ⟨⟨hFirst, hLe, hPlace⟩, hNode⟩
                have hMore :=
                  @ih node.span.stop s₁ (span.merge node.span)
                    (by
                      rw [Span.start_merge, Span.stop_merge]
                      omega)
                    (by rw [Span.stop_merge]; omega)
                    (by rw [Span.stop_merge]; omega)
                apply hMore.bind
                rintro i s₂ _ _ ⟨hSpanned, hFits⟩
                rcases hSpanned with ⟨hFirst', hLe', hLast⟩
                rw [Span.start_merge] at hFirst'
                rw [Span.stop_merge] at hLe'
                apply pure
                refine ⟨⟨?_, ?_, hLast⟩, ?_⟩
                · change i.span.start = span.start
                  omega
                · change span.stop ≤ i.span.stop
                  omega
                · exact (Fits.cons hNode hFits).mono
                    (by omega) (Nat.le_refl _)
              · split
                · apply bind_skip_one hRest
                  intro s₁ _ _ _ hTook
                  have hStart := hTook.start
                  have hStop := hTook.le
                  have hPlace := hTook.reach_eq
                  apply pure
                  refine ⟨⟨?_, ?_, ?_⟩, Fits.nil ?_⟩ <;>
                    simp only [Span.start_merge,
                      Span.stop_merge] <;>
                    omega
                · exact hEnd

------------------------------------------------------------
-- Literals
------------------------------------------------------------

theorem startText
    (heredoc : Bool) :
    Proceeds anything (ElixirReader.startText heredoc) s := by
  intro hPlaced
  refine ⟨?_, trivial⟩
  change Onward s (textStart heredoc s)
  cases heredoc with
  | false => exact Onward.refl hPlaced
  | true =>
      change Onward s (heredocStart s).2
      rw [heredocStart_apply]
      have hNoted :
          Onward s (poisonedIf (lineLength s.rest != 0) s) := by
        cases lineLength s.rest != 0 with
        | false => exact Onward.refl hPlaced
        | true => exact Onward.of_eq hPlaced rfl rfl
      exact hNoted.trans (Onward.advance _ hNoted.placed)

theorem endedSegments
    {span : Span}
    (hExpr : Orderly expr)
    (hSpan : span.start ≤ span.stop)
    (hReach : span.stop ≤ s.reach)
    (hOffset : a ≤ span.stop) :
    Proceeds
      (fun i s' => Spanned span i.span s'.reach ∧
        Fits a (insideNodes i) i.span.stop)
      (ElixirReader.endedSegments expr k span) s := by
  intro hPlaced
  rcases segmentsFor (k := k) hExpr hSpan hReach hOffset hPlaced
    with ⟨hOnward, hSpanned, hFits⟩
  have hPoisonedIf : ∀ b s', Onward s s' →
      Onward s (poisonedIf b s') ∧
        (poisonedIf b s').reach = s'.reach := by
    intro b s' hOnward
    cases b with
    | false => exact ⟨hOnward, rfl⟩
    | true =>
        exact ⟨hOnward.trans
          (Onward.of_eq hOnward.placed rfl rfl), rfl⟩
  have hNoted := hPoisonedIf
    (!(Parse.segmentsFor expr k span s).1.closed) _ hOnward
  refine ⟨hNoted.1, ?_, hFits⟩
  change Spanned span _ (poisonedIf _ _).reach
  rw [hNoted.2]
  exact hSpanned

end Proceeds

/-
  The span of a literal starts with its promoter, behind some
  offset, and holds the trees of the text.
-/
structure Quotes
    (a : Nat)
    (promoter : Span)
    (r : Text Node × Span)
    (s' : ParseState) : Prop where
  start : a ≤ promoter.start
  le : promoter.start ≤ promoter.stop
  spanned : Spanned promoter r.2 s'.reach
  fits : Fits promoter.stop r.1.nodes r.2.stop

theorem Quotes.holds
    {promoter : Span}
    {r : Text Node × Span}
    (hQuotes : Quotes a promoter r s) :
    Holds a r.2 r.1.nodes s.reach := by
  rcases hQuotes with ⟨hStart, hLe, hSpanned, hFits⟩
  have hFirst := hSpanned.start
  exact Holds.of_fits
    (hFits.mono (by omega) (Nat.le_refl _)) (by omega)
    hSpanned.stop

namespace Proceeds

theorem text
    (hExpr : Orderly expr)
    (hRest : s.rest = l :: ls) :
    Proceeds (Quotes s.reach l.span) (Parse.text expr) s := by
  have hAll : Proceeds (Quotes s.reach l.span)
      (do
        Parse.skip 1
        ElixirReader.startText (promoterText (some l)).2
        let i ← ElixirReader.endedSegments expr
          ((← Parse.rest).length + 1) l.span
        return textOf (promoterText (some l)).1
          (promoterText (some l)).2 i) s := by
    apply bind_skip_one hRest
    intro s₁ _ _ _ hTook
    apply (startText _).bind
    intro _ s₂ _ hOnward _
    have hPlace := hOnward.reach
    rw [hTook.reach_eq] at hPlace
    apply bind_rest
    apply (endedSegments hExpr hTook.le hPlace
      (Nat.le_refl _)).bind
    rintro i s₃ _ _ ⟨hSpanned, hFits⟩
    apply pure
    refine ⟨hTook.start, hTook.le, hSpanned, ?_⟩
    have hNodes := textNodes_textOf (promoterText (some l)).1
      (promoterText (some l)).2 i
    rw [← hNodes] at hFits
    exact hFits
  exact hAll.of_eq (text_eq_of_cons hRest)

end Proceeds

end ElixirReader
