import ElixirReader.Proofs.Errors.Reading

/-
  This file follows errors through statements and through the
  texts of literals. Statements with errors of their own show
  them, and what stands in an interpolation stays in the text
  around it.

  Key definitions include:
    * `textOfPair`
    * `insideNodes`

  Main declarations:
    * `Reads.finishStatement`
    * `Reads.statements`
    * `Reads.interpolation`
    * `Reads.segmentsFor`
    * `Reads.text`
-/

namespace ElixirReader

open Parse

variable {α β : Type}
variable {n k : Nat}
variable {l : Lexeme}
variable {ls : List Lexeme}
variable {s : ParseState}
variable {ds es : Nest}
variable {seen : List Node}
variable {view : α → List Node}
variable {expr : ExpressionParser}
variable {stop : Kind → Bool}

------------------------------------------------------------
-- Statements
------------------------------------------------------------

namespace Reads

theorem boundaryError? :
    Reads [] [] [] Option.toList (Parse.boundaryError? stop)
      s := by
  have hNone : Reads [] [] [] Option.toList
      (Pure.pure none : Parse (Option Node)) s :=
    pure (by simp)
  cases hRest : s.rest with
  | nil =>
      apply hNone.of_eq
      exact boundaryError?_of_nil stop hRest
  | cons l ls =>
      by_cases hEnds :
          (isSeparator l.kind || stop l.kind || s.poisoned) = true
      · apply hNone.of_eq
        rw [boundaryError?_of_cons stop hRest, if_pos hEnds]
        rfl
      · have hFailure : Reads [] [] [] nodeOf
            (Parse.failure (.unexpectedToken l.describe)
              l.span l.span) s := failure _ _ _
        have hSome : Reads [] [] [] Option.toList
            (do return some (← Parse.failure
              (.unexpectedToken l.describe) l.span l.span)) s := by
          apply hFailure.bind
          intro e s' _
          exact pure (by simp)
        apply hSome.of_eq
        rw [boundaryError?_of_cons stop hRest, if_neg hEnds]
        rfl

/-
  What ends a statement. Behind one in order nothing more is
  taken.
-/
theorem finishStatement
    {taken : List Lexeme}
    {start : ParseState}
    (hMoves : Moves n taken start s)
    (hStarts : Starts stop start.rest) :
    Reads [] [] [] Option.toList
      (Parse.finishStatement stop start.rest) s := by
  have hBoundary : Reads [] [] [] Option.toList
      (Parse.boundaryError? stop) s := boundaryError?
  rcases finishStatement_eq hMoves hStarts with
    ⟨hState, _, _, more, hMore⟩
  have hErrors :
      (Parse.finishStatement stop start.rest s).2.errors =
        (Parse.boundaryError? stop s).2.errors := by
    rw [hState]
    unfold recovered
    split <;> rfl
  have hView :
      (Parse.finishStatement stop start.rest s).1 =
        (Parse.boundaryError? stop s).1 := by
    rw [finishStatement_apply]
  refine ⟨⟨more, hMore.rest.symm⟩, hMore.errors, ?_, ?_⟩
  · rw [hErrors, hView]
    exact hBoundary.shows
  · intro trailing fs hCode hCalm hSame
    rcases boundaryError?_of_errors_eq hMoves hStarts
      hCalm.poisoned hSame with ⟨hNone, hLess⟩
    rw [finishStatement_of_clean hCalm.poisoned hNone hLess]
    exact ⟨hCalm, ⟨[], rfl, Balances.nil []⟩, fun h => h⟩

/- Parsing apart from the statement around takes up no poison. -/
theorem isolated
    {p : Parse α}
    (hReads : Reads [] [] [] view p
      { s with poisoned := false }) :
    Reads [] [] [] view (Parse.isolated p) s := by
  refine ⟨hReads.rest, hReads.errors, hReads.shows, ?_⟩
  intro trailing fs hCode hCalm hErrors
  have hApart : Calm trailing (Nest.framed [] ++ fs)
      { s with poisoned := false } :=
    hCalm.congr rfl rfl
  rcases hReads.calm hCode hApart hErrors with
    ⟨hCalm', hTaken, hNone⟩
  exact ⟨hCalm'.congr rfl hCalm.poisoned, hTaken, hNone⟩

end Reads

/- A statement shows what is wrong behind it. -/
theorem hasError_withTrailing
    (node : Node)
    (trailing : Option Node) :
    (withTrailing node trailing).containsError = true ↔
      HasError (node :: trailing.toList) := by
  cases trailing with
  | none => simp [withTrailing]
  | some e =>
      rw [withTrailing, containsError_mk _ rfl]
      rfl

namespace Reads

theorem statement
    (hExpr : Candid n expr)
    (hStarts : Starts stop s.rest) :
    Reads [] [] [] nodeOf (Parse.statement expr stop) s := by
  rcases hExpr.takes 0 .statement s with ⟨taken, hTakes⟩
  apply bind_rest
  apply (hExpr.reads 0 .statement s).bind
  intro node s' hEq
  rw [hEq] at hTakes
  apply (finishStatement hTakes.toMoves hStarts).bind
  intro trailing s'' _
  apply pure
  simp [hasError_withTrailing]

theorem statementsFor
    (hExpr : Candid n expr) :
    Reads [] [] [] nodesOf (Parse.statementsFor expr stop k)
      s := by
  induction k generalizing s with
  | zero =>
      have hPure : Reads [] [] [] nodesOf
          (Pure.pure [] : Parse (List Node)) s :=
        pure (by simp)
      exact hPure.cutOff
  | succ k ih =>
      have hSkip : Reads [] [] [] noNodes Parse.skipSeparators
        s := skipSeparators
      apply hSkip.bind_silent
      intro _ s₁ hEq
      have hStarts := @starts_skipSeparators s stop
      rw [hEq] at hStarts
      apply bind_peek
      cases hEnds : endsAt stop s₁.rest.head? with
      | true => exact pure (by simp)
      | false =>
          apply (statement hExpr (hStarts hEnds)).bind
          intro node s₂ _
          apply ih.bind
          intro nodes s₃ _
          exact pure (by simp)

theorem statements
    (hExpr : Candid n expr) :
    Reads [] [] [] nodesOf (Parse.statements expr stop) s := by
  apply bind_rest
  apply isolated
  exact statementsFor hExpr

------------------------------------------------------------
-- Interpolations
------------------------------------------------------------

/- In a text in order an interpolation is ended. -/
theorem interpolationEnd
    (opened : Span)
    (ds : Nest)
    (hEnds : endsAt (· == .interpolationEnd) s.rest.head? =
      true) :
    Reads (.interpolation :: ds) ds [] noNodes
      (Parse.interpolationEnd opened) s := by
  cases hRest : s.rest with
  | nil =>
      have hOther :
          ∀ l, s.rest.head? = some l →
            l.kind ≠ .interpolationEnd := by
        intro l hHead
        rw [hRest] at hHead
        cases hHead
      have hEq := interpolationEnd_of_ne opened hOther
      refine ⟨?_, ?_, ?_, ?_⟩
      · rw [hEq]
        exact List.suffix_refl _
      · rw [hEq]
        exact List.prefix_refl _
      · rw [hEq]
        rintro _ (hSeen | hErrors)
        · exact hSeen
        · exact absurd rfl hErrors
      · intro trailing fs _ hCalm _
        exact absurd hRest hCalm.rest_ne_nil
  | cons l ls =>
      rw [hRest] at hEnds
      have hKind : l.kind = .interpolationEnd := by
        simpa [endsAt] using hEnds
      have hOne : Reads (.interpolation :: ds) ds [] noNodes
          (Parse.skip 1) s := by
        apply skip_one hRest
        · intro fs _
          rw [hKind]
          rfl
        · intro fs _
          rw [hKind]
          rfl
        · left
          apply Lexeme.isUnfinished_of_isComplete
          rw [hKind]
          rfl
      have hSkip : Reads (.interpolation :: ds) ds [] noNodes
          (do Parse.skip 1; return opened.merge l.span) s := by
        apply hOne.bind_silent
        intro _ s' _
        exact pure (by simp)
      apply hSkip.of_eq
      rw [interpolationEnd_of_cons opened hRest hKind]
      rfl

theorem interpolation
    {f : Family}
    {layout : Layout}
    (hExpr : Candid n expr)
    (opened : Span)
    (hRest : s.rest = l :: ls)
    (hKind : l.kind = .interpolationStart) :
    Reads [.literal f layout] [.literal f layout] [] nodeOf
      (Parse.interpolation expr opened) s := by
  have hOne : Reads [.literal f layout]
      [.interpolation, .literal f layout] [] noNodes
      (Parse.skip 1) s := by
    apply skip_one hRest
    · intro fs _
      rw [hKind]
      rfl
    · intro fs _
      rw [hKind]
      rfl
    · left
      apply Lexeme.isUnfinished_of_isComplete
      rw [hKind]
      rfl
  apply hOne.bind_silent
  intro _ s₁ _
  have hStatements : Reads [] [] [] nodesOf
      (Parse.statements expr (· == .interpolationEnd)) s₁ :=
    statements hExpr
  apply (hStatements.interpolated [.literal f layout]).bind
  intro body s₂ hEq
  have hEnds : endsAt (· == .interpolationEnd) s₂.rest.head? =
      true := by
    have hAll : endsAt (· == .interpolationEnd)
        (Parse.statementsFor expr (· == .interpolationEnd)
          (s₁.rest.length + 1)
          { s₁ with poisoned := false }).2.rest.head? = true :=
      endsAt_statementsFor hExpr.toSound (Nat.lt_succ_self _)
    change endsAt (· == .interpolationEnd)
      (Parse.statements expr (· == .interpolationEnd)
        s₁).2.rest.head? = true at hAll
    rw [hEq] at hAll
    exact hAll
  apply (interpolationEnd opened _ hEnds).bind_silent
  intro span s₃ _
  apply pure
  rw [hasError_nodeOf, containsError_mk _ rfl]
  simp [Form.nodes]

end Reads

------------------------------------------------------------
-- Segments
------------------------------------------------------------

/- The trees in a literal. -/
def insideNodes
    (i : Inside) : List Node :=
  i.segments.flatMap Segment.nodes

theorem nodes_plainSegment?
    {segment : Segment Node}
    (hPlain : plainSegment? l = some segment) :
    segment.nodes = [] := by
  unfold plainSegment? at hPlain
  split at hPlain <;> cases hPlain <;> rfl

namespace Reads

/- A lexeme of the text of a literal. -/
theorem skip_plainSegment
    {f : Family}
    {layout : Layout}
    {segment : Segment Node}
    (hRest : s.rest = l :: ls)
    (hPlain : plainSegment? l = some segment)
    (hKind : ∀ ds,
      Nest.next? (.literal f layout :: ds) l.kind =
        some (.literal f layout :: ds)) :
    Reads [.literal f layout] [.literal f layout] [] noNodes
      (Parse.skip 1) s := by
  apply skip_one hRest
  · intro fs _
    exact hKind fs
  · intro fs _
    exact hKind fs
  · left
    apply Lexeme.isUnfinished_of_isComplete
    unfold plainSegment? at hPlain
    split at hPlain <;> rename_i hEq <;>
      first | (rw [hEq]; rfl) | cases hPlain

/- In a text in order every literal is ended. -/
theorem segmentsFor
    (span : Span)
    {f : Family}
    {layout : Layout}
    (hExpr : Candid n expr)
    (hBound : s.rest.length < k) :
    Reads [.literal f layout] [] [] insideNodes
      (Parse.segmentsFor expr k span) s := by
  induction k generalizing s span with
  | zero => omega
  | succ k ih =>
      -- Where the text breaks off nothing is in order.
      have hBreaksOff :
          (Parse.segmentsFor expr (k + 1) span s =
              (⟨[], span, false⟩, s)) →
            (∀ {trailing : Bool} {fs : Nest},
              ¬ Calm trailing (.literal f layout :: fs) s) →
            Reads [.literal f layout] [] [] insideNodes
              (Parse.segmentsFor expr (k + 1) span) s := by
        intro hEq hNot
        refine ⟨?_, ?_, ?_, ?_⟩
        · simp [hEq]
        · simp [hEq]
        · rw [hEq]
          rintro _ (hSeen | hErrors)
          · exact hSeen
          · exact absurd rfl hErrors
        · intro trailing fs _ hCalm _
          exact absurd hCalm hNot
      cases hRest : s.rest with
      | nil =>
          apply hBreaksOff (segmentsFor_of_nil hRest)
          intro trailing fs hCalm
          exact hCalm.rest_ne_nil hRest
      | cons l ls =>
          have hLength : ls.length < k := by
            rw [hRest, List.length_cons] at hBound
            omega
          cases segmentCase l with
          | plain segment hPlain hKind hNests =>
              have hSkip : Reads [.literal f layout]
                  [.literal f layout] [] noNodes (Parse.skip 1)
                  s :=
                skip_plainSegment hRest hPlain (hKind f layout)
              have hMore : Reads [.literal f layout] [] []
                  insideNodes
                  (do
                    Parse.skip 1
                    let i ← Parse.segmentsFor expr k
                      (span.merge l.span)
                    return { i with
                      segments := segment :: i.segments }) s := by
                apply hSkip.bind_silent
                intro _ s₁ hEq
                cases hEq
                have hTail := (ParseState.take_one hRest).2
                apply (ih _ (by rw [hTail]; exact hLength)).bind
                intro i s₂ _
                apply pure
                simp [insideNodes, nodes_plainSegment? hPlain]
              apply hMore.of_eq
              rw [segmentsFor_of_plain hRest hPlain]
              rfl
          | interpolation hPlain hKind =>
              have hMore : Reads [.literal f layout] [] []
                  insideNodes
                  (do
                    let node ← Parse.interpolation expr l.span
                    let i ← Parse.segmentsFor expr k
                      (span.merge node.span)
                    return { i with
                      segments :=
                        .interpolation node :: i.segments }) s := by
                apply (interpolation hExpr l.span hRest
                  hKind).bind
                intro node s₁ hEq
                rcases steady_interpolation hExpr.toSound l.span
                  hRest hKind with ⟨taken, hSteady⟩
                rw [hEq] at hSteady
                have hLess := hSteady.length_rest
                rw [hRest, List.length_cons, List.length_cons]
                  at hLess
                apply (ih _ (by
                  change _ = _ + s₁.rest.length at hLess
                  omega)).bind
                intro i s₂ _
                apply pure
                simp [insideNodes, Segment.nodes]
              apply hMore.of_eq
              rw [segmentsFor_of_interpolation hRest hPlain
                hKind]
              rfl
          | terminator f' layout' hPlain hKind =>
              have hEq : Parse.segmentsFor expr (k + 1) span s =
                  (⟨[], span.merge l.span, true⟩, s.advance 1) :=
                segmentsFor_of_terminator hRest hPlain hKind
              by_cases hSame : f' = f ∧ layout' = layout
              · rcases hSame with ⟨rfl, rfl⟩
                have hNext :
                    ∀ fs : Nest,
                      Nest.next? (.literal f' layout' :: fs)
                        l.kind = some fs := by
                  intro fs
                  rw [hKind]
                  exact if_pos ⟨rfl, rfl⟩
                have hOne : Reads [.literal f' layout'] [] []
                    noNodes (Parse.skip 1) s := by
                  apply skip_one hRest
                  · exact fun fs _ => hNext fs
                  · exact fun fs _ => hNext fs
                  · left
                    apply Lexeme.isUnfinished_of_isComplete
                    rw [hKind]
                    rfl
                have hSkip : Reads [.literal f' layout'] [] []
                    insideNodes
                    (do
                      Parse.skip 1
                      return ⟨[], span.merge l.span, true⟩)
                    s := by
                  apply hOne.bind_silent
                  intro _ s₁ _
                  exact pure (by simp [insideNodes])
                apply hSkip.of_eq
                rw [hEq]
                rfl
              · refine ⟨?_, ?_, ?_, ?_⟩
                · rw [hEq]
                  exact suffix_advance 1 s
                · rw [hEq]
                  exact List.prefix_refl _
                · rw [hEq]
                  rintro _ (hSeen | hErrors)
                  · exact hSeen
                  · exact absurd rfl hErrors
                · intro trailing fs _ hCalm _
                  have hFramed := hCalm.framed
                  have hNone :
                      Nest.framed? (.literal f layout :: fs)
                        l.kind = none := by
                    rw [hKind]
                    exact if_neg hSame
                  rw [hRest] at hFramed
                  change (Nest.framed? (.literal f layout :: fs)
                    l.kind).bind _ = _ at hFramed
                  rw [hNone] at hFramed
                  cases hFramed
          | other hPlain hStart hTerminator hKind =>
              apply hBreaksOff
                (segmentsFor_of_other hRest hPlain hStart
                  hTerminator)
              intro trailing fs hCalm
              have hFramed := hCalm.framed
              rw [hRest] at hFramed
              change (Nest.next? (.literal f layout :: fs)
                l.kind).bind _ = _ at hFramed
              rw [hKind] at hFramed
              cases hFramed

end Reads

------------------------------------------------------------
-- Literals
------------------------------------------------------------

/- Segments, with poison if nothing ends them. -/
def endedSegments
    (expr : ExpressionParser)
    (k : Nat)
    (span : Span) : Parse Inside :=
  fun s =>
    let i := segmentsFor expr k span s
    (i.1, poisonedIf (!i.1.closed) i.2)

/- The lexemes before the text of a literal, as a part. -/
def startText
    (heredoc : Bool) : Parse Unit :=
  fun s => ((), textStart heredoc s)

theorem text_eq_of_cons
    (hRest : s.rest = l :: ls) :
    text expr s =
      (do
        skip 1
        startText (promoterText (some l)).2
        let i ← endedSegments expr ((← rest).length + 1) l.span
        return textOf (promoterText (some l)).1
          (promoterText (some l)).2 i : Parse _) s := by
  rw [text_of_cons hRest]
  rfl

/- The trees in a literal that comes with its span. -/
def textNodes
    (t : Text Node × Span) : List Node :=
  t.1.nodes

/- The indentation before a terminator holds no trees. -/
theorem textNodes_textOf
    (kind : TextKind)
    (heredoc : Bool)
    (i : Inside) :
    textNodes (textOf kind heredoc i) = insideNodes i := by
  change (splitIndent heredoc i).2.flatMap Segment.nodes = _
  unfold splitIndent
  split
  · rename_i blanks hLast
    split
    · rcases List.getLast?_eq_some_iff.mp hLast with ⟨ss, hSs⟩
      simp [insideNodes, hSs, Segment.nodes]
    · rfl
  · rfl

namespace Reads

theorem endedSegments
    (span : Span)
    {f : Family}
    {layout : Layout}
    (hExpr : Candid n expr)
    (hBound : s.rest.length < k) :
    Reads [.literal f layout] [] [] insideNodes
      (ElixirReader.endedSegments expr k span) s := by
  have hSegments : Reads [.literal f layout] [] [] insideNodes
      (Parse.segmentsFor expr k span) s :=
    segmentsFor span hExpr hBound
  have hPoisonedIf : ∀ b s',
      (poisonedIf b s').rest = s'.rest ∧
        (poisonedIf b s').errors = s'.errors := by
    intro b s'
    cases b <;> exact ⟨rfl, rfl⟩
  refine ⟨?_, ?_, ?_, ?_⟩
  · change (poisonedIf _ _).rest <:+ _
    rw [(hPoisonedIf _ _).1]
    exact hSegments.rest
  · change _ <+: (poisonedIf _ _).errors
    rw [(hPoisonedIf _ _).2]
    exact hSegments.errors
  · change _ → _ ∨ (poisonedIf _ _).errors ≠ _ → _
    rw [(hPoisonedIf _ _).2]
    exact hSegments.shows
  · intro trailing fs hCode hCalm hErrors
    change (poisonedIf _ _).errors = _ at hErrors
    rw [(hPoisonedIf _ _).2] at hErrors
    rcases hSegments.calm hCode hCalm hErrors with
      ⟨hCalm', ⟨taken, hTaken, hBalances⟩, hNone⟩
    -- What was taken ends the literal.
    have hWithin : Within [.literal f layout]
        (Parse.segmentsFor expr k span s).2.rest s :=
      ⟨taken, hTaken, hBalances [] rfl⟩
    have hClosed :=
      (within_segmentsFor span hExpr.toSound hBound hWithin).1
    have hEq : ElixirReader.endedSegments expr k span s =
        Parse.segmentsFor expr k span s := by
      unfold ElixirReader.endedSegments
      simp only [hClosed]
      rfl
    rw [hEq]
    exact ⟨hCalm', ⟨taken, hTaken, hBalances⟩, hNone⟩

/- In a text in order the line of a promoter holds nothing else. -/
theorem startText
    (f : Family)
    (layout : Layout) :
    Reads [promoted f layout] [.literal f layout] [] noNodes
      (ElixirReader.startText (layout == .heredoc)) s := by
  cases layout with
  | quoted =>
      have hPure : Reads [.literal f .quoted] [.literal f .quoted]
          [] noNodes (Pure.pure () : Parse Unit) s :=
        pure (by simp)
      exact hPure.of_eq rfl
  | heredoc =>
      have hEq : ElixirReader.startText true s =
          ((), (poisonedIf (lineLength s.rest != 0) s).advance
            (lineLength s.rest + 1)) := by
        change ((), (heredocStart s).2) = _
        rw [heredocStart_apply]
      refine ⟨?_, ?_, ?_, ?_⟩
      · change (ElixirReader.startText true s).2.rest <:+ _
        rw [hEq]
        cases lineLength s.rest != 0 <;>
          exact suffix_advance _ _
      · change _ <+: (ElixirReader.startText true s).2.errors
        rw [hEq]
        cases lineLength s.rest != 0 <;>
          exact List.prefix_refl _
      · rintro _ (hSeen | hErrors)
        · exact hSeen
        · exfalso
          apply hErrors
          change (ElixirReader.startText true s).2.errors = _
          rw [hEq]
          cases lineLength s.rest != 0 <;> rfl
      · intro trailing fs _ hCalm _
        change Calm trailing (.promoterLine f :: fs) s at hCalm
        cases hRest : s.rest with
        | nil => exact absurd hRest hCalm.rest_ne_nil
        | cons l ls =>
            have hFramed := hCalm.framed
            rw [hRest] at hFramed
            change (Nest.onPromoterLine? f fs l.kind).bind _ = _
              at hFramed
            have hFaultless := hCalm.faultless_head hRest
            have hKind : l.kind = .endOfLine := by
              cases hKind : l.kind <;>
                rw [hKind] at hFramed hFaultless <;>
                first
                | rfl
                | cases hFramed
                | cases hFaultless
            have hLine : lineLength s.rest = 0 := by
              simp [lineLength, runLength, hRest, hKind,
                isLineEnd]
            have hState :
                (ElixirReader.startText true s).2 =
                  s.advance 1 := by
              rw [hEq, hLine]
              rfl
            have hTail := (ParseState.take_one hRest).2
            change Calm trailing _
                (ElixirReader.startText true s).2 ∧
              (∃ taken, _ = taken ++
                (ElixirReader.startText true s).2.rest ∧ _) ∧ _
            rw [hState]
            refine ⟨hCalm.advance hRest (by rw [hKind]; rfl)
              (.inl ?_), ⟨[l], ?_, ?_⟩, fun h => h⟩
            · apply Lexeme.isUnfinished_of_isComplete
              rw [hKind]
              rfl
            · rw [hTail]
              rfl
            · apply Balances.singleton
              intro gs _
              rw [hKind]
              rfl

/- A literal is taken as a whole. -/
theorem text
    {f : Family}
    {layout : Layout}
    (hExpr : Candid n expr)
    (hRest : s.rest = l :: ls)
    (hKind : l.kind = .promoter f layout) :
    Reads [] [] [] textNodes (Parse.text expr) s := by
  have hOpener : l.kind.opener? = some (promoted f layout) := by
    rw [hKind]
    exact opener?_promoter f layout
  have hFramed : Nest.framed [promoted f layout] =
      [promoted f layout] := by
    cases layout <;> rfl
  have hOne : Reads [] [promoted f layout] [] noNodes
      (Parse.skip 1) s := by
    have hNext : ∀ fs : Nest, fs.isCode = true →
        fs.next? l.kind = some (promoted f layout :: fs) := by
      intro fs hCode
      rw [Nest.next?_of_isCode _ hCode, Nest.inCode?, hOpener,
        if_pos (by rw [hKind]; rfl)]
      rfl
    apply skip_one hRest
    · exact hNext
    · intro fs hCode
      rw [hFramed, Nest.framed?_eq_next? (.inr _)]
      · exact hNext fs hCode
      · rw [Kind.isUnframed, hOpener]
        cases layout <;> rfl
    · left
      apply Lexeme.isUnfinished_of_isComplete
      rw [hKind]
      rfl
  have hAll : Reads [] [] [] textNodes
      (do
        Parse.skip 1
        ElixirReader.startText (promoterText (some l)).2
        let i ← ElixirReader.endedSegments expr
          ((← Parse.rest).length + 1) l.span
        return textOf (promoterText (some l)).1
          (promoterText (some l)).2 i) s := by
    apply hOne.bind_silent
    intro _ s₁ _
    rw [promoterText_of_promoter hKind]
    apply (startText f layout).bind_silent
    intro _ s₂ _
    apply bind_rest
    apply (endedSegments l.span hExpr
      (Nat.lt_succ_self _)).bind
    intro i s₃ _
    apply pure
    rw [textNodes_textOf, List.nil_append]
  exact hAll.of_eq (text_eq_of_cons hRest)

end Reads

end ElixirReader
