import ElixirReader.Proofs.Parser.Literals
import ElixirReader.Parser.Container

/-
  This file compares runs over what stands between brackets:
  lists, tuples, bitstrings, maps, structs, and statements in
  parentheses.

  Main declarations:
    * `Run.items`
    * `Run.enclosed`
    * `Run.parenthesized`
    * `Run.mapBody`
    * `Run.structOrMap`
-/

namespace ElixirReader

open Parse

variable {α β : Type}
variable {h : Setting}
variable {inside : Bool}
variable {n k m : Nat}
variable {s s' : ParseState}
variable {expr : ExpressionParser}
variable {context : Context}
variable {l : Lexeme}
variable {ls : List Lexeme}

------------------------------------------------------------
-- Elements
------------------------------------------------------------

/- Inside of delimiters both runs see the next lexeme. -/
theorem Run.bind_peek_of_inside
    {f g : Option Lexeme → Parse α}
    (hRun : Run h n true (f s.rest.head?) (g s.rest.head?) s) :
    Run h n true (peek >>= f) (peek >>= g) s := by
  apply Run.bind_peek
  apply hRun.of_eq
  intro hSees
  rw [hSees.head?_append_of_inside]

theorem Run.lastItem
    (hExpr : Sound n expr)
    (hAhead : ElixirReader.keywordAhead s.rest = true) :
    Run h n true (Parse.lastItem expr) (Parse.lastItem expr)
      s := by
  apply (Run.keywords hExpr hAhead).bind
  intro pairs s₁ _
  apply Run.skipLineEnds.bind
  intro _ s₂ _
  apply Run.bind_eat rfl rfl
  · intro comma s₃ _ _ _
    exact Run.pure _
  · intro _
    exact Run.pure _

theorem Run.itemsFor
    (hExpr : Sound n expr)
    (closer : Kind)
    (hBound : s.rest.length < k)
    (hBound' : s.rest.length + h.after.length < m) :
    Run h n true (Parse.itemsFor expr closer k)
      (Parse.itemsFor expr closer m) s := by
  induction k generalizing m s with
  | zero => omega
  | succ k ih =>
      cases m with
      | zero => omega
      | succ m =>
          apply Run.skipLineEnds.bind_le
          intro _ s₁ hLe _
          apply Run.bind_peek_of_inside
          split
          · exact Run.pure _
          · apply Run.keywordAhead
            · exact fun hAhead => Run.lastItem hExpr hAhead
            · intro _
              apply (hExpr.run h true 0 .container s₁).bind_le
              intro item s₂ hLe' _
              apply Run.skipLineEnds.bind_le
              intro _ s₃ hLe'' _
              apply Run.bind_eat rfl rfl
              · intro comma s₄ hRest _ _
                rw [hRest, List.length_cons] at hLe''
                apply (ih (by omega) (by omega)).bind
                intro items s₅ _
                exact Run.pure _
              · intro _
                exact Run.pure _
            · intro hInside
              cases hInside

theorem Run.items
    (hExpr : Sound n expr)
    (closer : Kind) :
    Run h n true (Parse.items expr closer)
      (Parse.items expr closer) s := by
  apply Run.bind_rest
  apply Run.itemsFor hExpr closer
  · omega
  · rw [List.length_append]
    omega

/- What closes a construct makes the items complete. -/
def closed
    (opened : Span)
    (items : List Node) :
    Except Node Lexeme → Parse (List Node × Span)
| .ok l => return (items, opened.merge l.span)
| .error e => do
    return (items ++ [e], opened.merge (← previousSpan))

theorem close_bind
    (closer : Closer)
    (opened : Span)
    (items : List Node)
    (f : List Node × Span → Parse α) :
    Parse.close closer opened items >>= f =
      Parse.expectClosing closer opened >>= fun r =>
        closed opened items r >>= f := by
  have hEq :
      Parse.close closer opened items =
        Parse.expectClosing closer opened >>=
          closed opened items := rfl
  rw [hEq, bind_assoc]

theorem Run.closed
    (opened : Span)
    (items : List Node)
    (r : Except Node Lexeme)
    (hBefore : s.before.isSome = true) :
    Run h n inside (ElixirReader.closed opened items r)
      (ElixirReader.closed opened items r) s := by
  cases r with
  | ok l => exact Run.pure _
  | error e =>
      apply Run.bind_previousSpan hBefore
      intro span
      exact Run.pure _

theorem Run.enclosed
    {b : Bracket}
    (hExpr : Sound n expr)
    (hRest : s.rest = l :: ls)
    (hOpening : l.kind = .opening b) :
    Run h n inside (Parse.enclosed expr b)
      (Parse.enclosed expr b) s := by
  apply Run.bind_currentSpan hRest
  apply Run.bracketed hRest hOpening
  · intro s' _ _
    exact Run.items hExpr _
  · intro found r s' hBefore
    exact Run.closed l.span found r hBefore

/- What is between brackets starts behind the first of them. -/
theorem length_enclosed
    (b : Bracket)
    (hExpr : Sound n expr)
    (hRest : s.rest = l :: ls) :
    (Parse.enclosed expr b s).2.rest.length <
      s.rest.length := by
  have hItems :
      Run Setting.any n true (Parse.items expr (.closing b))
        (Parse.items expr (.closing b)) (s.advance 1) :=
    Run.items hExpr _
  rcases (closing_expectClosing n (.bracket b) s.currentSpan
    (Parse.items expr (.closing b) (s.advance 1)).2).steady
    with ⟨taken, hSteady⟩
  have hClosed :
      ∀ (items : List Node) (r : Except Node Lexeme)
        (s' : ParseState),
        (closed s.currentSpan items r s').2 = s' := by
    intro items r s'
    cases r <;> rfl
  have hLength := hSteady.length_rest
  have hLe := hItems.length_le
  have hEq :
      (Parse.enclosed expr b s).2 =
        (Parse.expectClosing (.bracket b) s.currentSpan
          (Parse.items expr (.closing b) (s.advance 1)).2).2 :=
    hClosed _ _ _
  rw [(ParseState.take_one hRest).2] at hLe
  rw [hEq, hRest, List.length_cons]
  omega

theorem Run.container
    {b : Bracket}
    (hExpr : Sound n expr)
    (form : List Node → Form Node)
    (hRest : s.rest = l :: ls)
    (hOpening : l.kind = .opening b) :
    Run h n inside (Parse.container expr b form)
      (Parse.container expr b form) s := by
  apply (Run.enclosed hExpr hRest hOpening).bind
  rintro ⟨found, span⟩ s' _
  exact Run.pure _

------------------------------------------------------------
-- Parentheses
------------------------------------------------------------

theorem closer?_eq_parenthesis
    (k : Kind) :
    k.closer? = some (.bracket .parenthesis) ↔
      k = .closing .parenthesis := by
  cases k with
  | closing b => simp [Kind.closer?]
  | word w => cases w <;> simp [Kind.closer?]
  | _ => simp [Kind.closer?]

theorem Run.parenthesized
    (hExpr : Sound n expr)
    (hRest : s.rest = l :: ls)
    (hOpening : l.kind = .opening .parenthesis) :
    Run h n inside (Parse.parenthesized expr)
      (Parse.parenthesized expr) s := by
  apply Run.bind_currentSpan hRest
  simp only [close_bind]
  apply Run.level (d := .bracket .parenthesis) hRest
  · rw [hOpening]
    rfl
  · rw [hOpening]
    rfl
  · rfl
  · exact closer?_eq_parenthesis
  · exact Level.statements hExpr closer?_eq_parenthesis rfl rfl
  · intro body r s' hBefore
    apply (Run.closed l.span body r hBefore).bind
    rintro ⟨found, span⟩ s'' _
    exact Run.pure _

------------------------------------------------------------
-- Maps
------------------------------------------------------------

theorem Run.entriesAfter
    (hExpr : Sound n expr)
    (first : Node) :
    Run h n true (Parse.entriesAfter expr first)
      (Parse.entriesAfter expr first) s := by
  apply Run.bind_eat rfl rfl
  · intro comma s' _ _ _
    apply (Run.items hExpr _).bind
    intro more s'' _
    exact Run.pure _
  · intro _
    exact Run.pure _

theorem Run.entriesFrom
    (hExpr : Sound n expr) :
    Run h n true (Parse.entriesFrom expr)
      (Parse.entriesFrom expr) s := by
  apply (hExpr.run h true _ .container s).bind
  intro first s₁ _
  apply Run.skipLineEnds.bind
  intro _ s₂ _
  apply Run.bind_eat rfl rfl
  · intro pipe s₃ _ _ _
    apply (Run.items hExpr _).bind
    intro more s₄ _
    exact Run.pure _
  · intro _
    exact Run.entriesAfter hExpr first

theorem Setting.Sees.entryAhead_append
    (hSees : h.Sees true s) :
    entryAhead (s.rest ++ h.after) = entryAhead s.rest := by
  unfold entryAhead
  rw [hSees.head?_append_of_inside,
    hSees.keywordAhead_append_of_inside]

theorem Run.entries
    (hExpr : Sound n expr) :
    Run h n true (Parse.entries expr) (Parse.entries expr)
      s := by
  apply Run.skipLineEnds.bind
  intro _ s₁ _
  apply Run.bind_rest
  apply Run.of_eq _ fun hSees => by
    rw [hSees.entryAhead_append]
  split
  · exact Run.entriesFrom hExpr
  · apply (Run.items hExpr _).bind
    intro found s₂ _
    exact Run.pure _

theorem Run.mapBody
    (hExpr : Sound n expr)
    (hRest : s.rest = l :: ls)
    (hOpening : l.kind = .opening .curly) :
    Run h n inside (Parse.mapBody expr) (Parse.mapBody expr)
      s := by
  apply Run.bind_currentSpan hRest
  simp only [close_bind]
  apply Run.bracketed hRest hOpening
  · intro s' _ _
    exact Run.entries hExpr
  · rintro ⟨update, found⟩ r s' hBefore
    apply (Run.closed l.span found r hBefore).bind
    rintro ⟨found', span⟩ s'' _
    exact Run.pure _

------------------------------------------------------------
-- Structs
------------------------------------------------------------

/- The segment that follows behind a dot. -/
def segmentAhead? : List Lexeme → Option Lexeme
| l :: segment :: _ =>
    if l.kind = .dot ∧ segment.kind = .alias then some segment
    else none
| _ => none

theorem structSegments_succ
    (k : Nat)
    (name : Node) :
    Parse.structSegments (k + 1) name =
      rest >>= fun ls =>
        (match segmentAhead? ls with
        | none => return name
        | some segment => do
            skip 2
            structSegments k (extendAlias name segment)) := by
  rw [Parse.structSegments]
  congr 1
  funext ls
  rcases ls with _ | ⟨l, _ | ⟨segment, ls⟩⟩
  · rfl
  · rfl
  · simp only [segmentAhead?]
    split <;> rfl

theorem Setting.Sees.segmentAhead?_append
    (hSees : h.Sees inside s) :
    segmentAhead? (s.rest ++ h.after) =
      segmentAhead? s.rest := by
  have hNone :
      ∀ l ls, l.kind.endsText = true →
        segmentAhead? (l :: ls) = none := by
    intro l ls hEnds
    cases ls with
    | nil => rfl
    | cons m ls =>
        rcases Kind.endsText_cases hEnds with
          hKind | hKind | hKind | hKind <;>
        simp [segmentAhead?, hKind]
  rcases hRest : s.rest with _ | ⟨l, _ | ⟨m, ls⟩⟩
  · rcases hSees.after_cases hRest with
      hAfter | ⟨l, ls, hEnds⟩
    · rw [hAfter]
      rfl
    · rw [hEnds.after]
      exact hNone l ls hEnds.kind
  · by_cases hDot : l.kind = .dot
    · have hNext := hSees.advance_one hRest
        (by rw [hDot]; rfl)
      rcases hNext.after_cases (ParseState.take_one hRest).2
        with hAfter | ⟨m, ms, hEnds⟩
      · rw [hAfter]
        rfl
      · rw [hEnds.after]
        rcases Kind.endsText_cases hEnds.kind with
          hKind | hKind | hKind | hKind <;>
        simp [segmentAhead?, hKind]
    · cases h.after with
      | nil => rfl
      | cons m ms => simp [segmentAhead?, hDot]
  · rfl

theorem isPlain_of_segmentAhead?
    {segment : Lexeme}
    (hSegment : segmentAhead? s.rest = some segment) :
    (∀ l ∈ s.rest.take 2, l.kind.isPlain = true) ∧
      2 ≤ s.rest.length := by
  rcases hRest : s.rest with _ | ⟨l, _ | ⟨m, ls⟩⟩
  · rw [hRest] at hSegment
    cases hSegment
  · rw [hRest] at hSegment
    cases hSegment
  · rw [hRest] at hSegment
    simp only [segmentAhead?] at hSegment
    split at hSegment
    · rename_i hKinds
      exact take_two_of_kind _ (by rw [hKinds.1]; rfl)
        (by rw [hKinds.2]; rfl)
    · cases hSegment

theorem Run.structSegments
    (name : Node)
    (hBound : s.rest.length < k)
    (hBound' : s.rest.length + h.after.length < m) :
    Run h n inside (Parse.structSegments k name)
      (Parse.structSegments m name) s := by
  induction k generalizing m s name with
  | zero => omega
  | succ k ih =>
      cases m with
      | zero => omega
      | succ m =>
          rw [structSegments_succ, structSegments_succ]
          apply Run.bind_rest
          apply Run.of_eq _ fun hSees => by
            rw [hSees.segmentAhead?_append]
          cases hSegment : segmentAhead? s.rest with
          | none => exact Run.pure _
          | some segment =>
              rcases isPlain_of_segmentAhead? hSegment with
                ⟨hPlain, hLength⟩
              apply (Run.skip hPlain hLength).bind
              intro _ s' hEq
              have hLess : s'.rest.length + 2 = s.rest.length := by
                cases hEq
                change (s.rest.drop 2).length + 2 = _
                rw [List.length_drop]
                omega
              exact ih _ (by omega) (by omega)

theorem Run.structAttribute
    (mark : Lexeme)
    (hRest : s.rest = l :: ls)
    (hPlain : l.kind.isPlain = true) :
    Run h n inside (Parse.structAttribute mark)
      (Parse.structAttribute mark) s := by
  apply Run.bind_skip hRest hPlain
  intro s' _ _
  apply (Run.expect .attributeName rfl rfl).bind
  rintro (e | name) s'' _
  · exact Run.pure _
  · exact Run.pure _

theorem Run.structHead :
    Run h n inside Parse.structHead Parse.structHead s := by
  apply Run.bind_peek_or_fails
  · intro l ls hRest
    simp only
    split
    · rename_i hKind
      apply Run.bind_skip hRest (by rw [hKind]; rfl)
      intro s' _ _
      exact Run.pure _
    · rename_i hKind
      apply Run.bind_skip hRest (by rw [hKind]; rfl)
      intro s' _ _
      exact Run.pure _
    · rename_i hKind
      exact Run.structAttribute l hRest (by rw [hKind]; rfl)
    · apply (Run.wantedNode _).bind
      intro e s' _
      exact Run.pure _
  · intro _
    constructor
    · apply (Run.errorNode _).bind
      intro e s' _
      exact Run.pure _
    · exact fails_errorNode _

theorem Run.structName :
    Run h n inside Parse.structName Parse.structName s := by
  apply Run.structHead.bind
  rintro (e | name) s' _
  · exact Run.pure _
  · apply Run.bind_rest
    apply Run.structSegments
    · omega
    · rw [List.length_append]
      omega

theorem Run.structOrMap
    (hExpr : Sound n expr)
    (hRest : s.rest = l :: ls)
    (hPlain : l.kind.isPlain = true) :
    Run h n inside (Parse.structOrMap expr)
      (Parse.structOrMap expr) s := by
  apply Run.bind_currentSpan hRest
  apply Run.bind_skip hRest hPlain
  intro s₁ _ _
  apply Run.bind_isAt rfl
  · intro curly ms hRest' hKind
    apply (Run.mapBody hExpr hRest' hKind).bind
    rintro ⟨body, span⟩ s₂ _
    exact Run.pure _
  · intro _
    apply Run.structName.bind
    intro name s₂ _
    apply Run.bind_isAt rfl
    · intro curly ms hRest' hKind
      apply (Run.mapBody hExpr hRest' hKind).bind
      rintro ⟨body, span⟩ s₃ _
      exact Run.pure _
    · intro _
      exact Run.wantedNode _

end ElixirReader
