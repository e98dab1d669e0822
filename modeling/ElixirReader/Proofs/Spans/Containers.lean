import ElixirReader.Proofs.Errors.Containers
import ElixirReader.Proofs.Spans.Literals

/-
  This file follows places through what stands between
  brackets: elements, statements in parentheses, maps and
  structs. A bracketed construct holds what is between its
  brackets, and so does the node that it makes.

  Main declarations:
    * `Proceeds.enclosed`
    * `Proceeds.parenthesized`
    * `Fits.extendAlias`
    * `Proceeds.mapBody`
    * `Proceeds.structOrMap`
-/

namespace ElixirReader

open Parse

variable {a k : Nat}
variable {l : Lexeme}
variable {ls : List Lexeme}
variable {s : ParseState}
variable {expr : ExpressionParser}
variable {context : Context}

namespace Proceeds

------------------------------------------------------------
-- Elements
------------------------------------------------------------

theorem lastItem
    (hExpr : Orderly expr)
    (hAhead : ElixirReader.keywordAhead s.rest = true) :
    Proceeds (laid nodesOf s.reach) (Parse.lastItem expr) s := by
  apply (keywords hExpr hAhead).bind
  intro pairs s₁ _ _ hPairs
  apply skipLineEnds.bind
  intro _ s₂ _ hSkip _
  apply (eat .comma).bind
  intro _ s₃ _ hComma _
  exact pure (Fits.mono hPairs (Nat.le_refl _)
    (hSkip.trans hComma).reach)

theorem itemsFor
    (hExpr : Orderly expr)
    (closer : Kind) :
    Proceeds (laid nodesOf s.reach)
      (Parse.itemsFor expr closer k) s := by
  induction k generalizing s with
  | zero =>
      exact cutOff fun s' hSame =>
        .nil (Nat.le_of_eq hSame.symm)
  | succ k ih =>
      apply skipLineEnds.bind
      intro _ s₁ _ hSkip _
      apply bind_peek
      split
      · exact pure (.nil hSkip.reach)
      · apply bind_rest
        split
        · rename_i hAhead
          apply (lastItem hExpr hAhead).mono
          intro ns s₂ _ _ hItems
          exact Fits.mono hItems hSkip.reach (Nat.le_refl _)
        · apply (hExpr 0 .container s₁).bind
          intro item s₂ _ _ hItem
          apply skipLineEnds.bind
          intro _ s₃ _ hSkip' _
          apply (eat .comma).bind
          intro comma s₄ _ hComma _
          have hFirst : Fits s.reach [item] s₄.reach :=
            Fits.mono hItem hSkip.reach
              (hSkip'.trans hComma).reach
          cases comma with
          | none => exact pure hFirst
          | some _ =>
              apply ih.bind
              intro more s₅ _ _ hMore
              exact pure (hFirst.cons hMore)

theorem items
    (hExpr : Orderly expr)
    (closer : Kind) :
    Proceeds (laid nodesOf s.reach) (Parse.items expr closer)
      s :=
  bind_rest (itemsFor hExpr closer)

theorem enclosed
    (hExpr : Orderly expr)
    (hRest : s.rest = l :: ls)
    (bracket : Bracket) :
    Proceeds (heldIn nodesOf s.reach)
      (Parse.enclosed expr bracket) s := by
  apply bind_currentSpan_of_cons hRest
  apply bind_skip_one hRest
  intro s₁ _ _ _ hTook
  apply (items hExpr (.closing bracket)).bind
  intro found s₂ _ _ hFound
  have hItems : Fits l.span.stop ([] ++ found) s₂.reach := by
    rw [← hTook.reach_eq]
    exact hFound
  apply (close (.bracket bracket) [] hTook.le hItems).mono
  intro r s₃ _ _ hHeld
  exact Holds.mono hHeld hTook.start (Nat.le_refl _)

theorem container
    {form : List Node → Form Node}
    (hExpr : Orderly expr)
    (hRest : s.rest = l :: ls)
    (bracket : Bracket)
    (hForm : ∀ ns span,
      Node.isError ⟨form ns, span⟩ = false ∧
        (form ns).nodes = ns) :
    Proceeds (laid nodeOf s.reach)
      (Parse.container expr bracket form) s := by
  apply (enclosed hExpr hRest bracket).bind
  rintro ⟨found, span⟩ s₁ _ _ hHeld
  apply pure
  apply Holds.fits _ (hForm found span).1
  rw [(hForm found span).2]
  exact hHeld

end Proceeds

------------------------------------------------------------
-- Parentheses
------------------------------------------------------------

/- Without a block a single expression keeps its own span. -/
theorem Holds.unwrap
    {span : Span}
    {ns : List Node}
    {b : Nat}
    (hHolds : Holds a span ns b) :
    Fits a [Parse.unwrap span ns] b := by
  rcases ns with _ | ⟨n, _ | ⟨m, ns⟩⟩
  · exact Holds.fits (f := .block []) hHolds rfl
  · exact hHolds.inside
  · exact Holds.fits (f := .block (n :: m :: ns)) hHolds rfl

theorem Proceeds.parenthesized
    (hExpr : Orderly expr)
    (hRest : s.rest = l :: ls) :
    Proceeds (laid nodeOf s.reach) (Parse.parenthesized expr)
      s := by
  apply bind_currentSpan_of_cons hRest
  apply bind_skip_one hRest
  intro s₁ _ _ _ hTook
  apply (statements hExpr).bind
  intro body s₂ _ _ hBody
  have hItems : Fits l.span.stop ([] ++ body) s₂.reach := by
    rw [← hTook.reach_eq]
    exact hBody
  apply (close (.bracket .parenthesis) [] hTook.le hItems).bind
  rintro ⟨ns, span⟩ s₃ _ _ hHeld
  apply pure
  exact Holds.unwrap
    (Holds.mono hHeld hTook.start (Nat.le_refl _))

------------------------------------------------------------
-- Aliases
------------------------------------------------------------

/- An alias that gets one more segment keeps what is below it. -/
theorem Fits.extendAlias
    {receiver : Node}
    {segment : Lexeme}
    {b c : Nat}
    (hReceiver : Fits a [receiver] b)
    (hSegment : Holds b segment.span [] c) :
    Fits a [Parse.extendAlias receiver segment] c := by
  have hHolds := hReceiver.holds_before hSegment
  rcases receiver with ⟨form, span⟩
  cases form with
  | «alias» base segments =>
      apply Holds.fits _ rfl
      intro hNone
      have hClean : ¬ HasError
          [⟨.alias base segments, span⟩] := by
        rw [hasError_cons, containsError_mk _ rfl, not_or]
        exact ⟨hNone, hasError_nil⟩
      rcases hHolds hClean with ⟨hStart, hLaid, hStop⟩
      rcases Laid.singleton_iff.mp hLaid with
        ⟨hFirst, hLast, hLaminar⟩
      refine ⟨hStart, ?_, hStop⟩
      exact (isLaminar_mk.mp hLaminar).mono hFirst hLast
  | _ =>
      apply Holds.fits hHolds
      rfl

namespace Proceeds

------------------------------------------------------------
-- Maps
------------------------------------------------------------

theorem entriesAfter
    {first : Node}
    (hExpr : Orderly expr)
    (hFirst : Fits a [first] s.reach) :
    Proceeds (laid Entries.nodes a)
      (Parse.entriesAfter expr first) s := by
  apply (eat .comma).bind
  intro comma s₁ _ hComma _
  have hPlaced : Fits a [first] s₁.reach :=
    hFirst.mono (Nat.le_refl a) hComma.reach
  cases comma with
  | none => exact pure hPlaced
  | some _ =>
      apply (items hExpr (.closing .curly)).bind
      intro more s₂ _ _ hMore
      exact pure (hPlaced.cons hMore)

theorem entriesFrom
    (hExpr : Orderly expr) :
    Proceeds (laid Entries.nodes s.reach)
      (Parse.entriesFrom expr) s := by
  apply (hExpr _ .container s).bind
  intro first s₁ _ _ hFirst
  apply skipLineEnds.bind
  intro _ s₂ _ hSkip _
  apply (eat (.operator .pipe)).bind
  intro pipe s₃ _ hPipe _
  have hPlaced : Fits s.reach [first] s₃.reach :=
    Fits.mono hFirst (Nat.le_refl _) (hSkip.trans hPipe).reach
  cases pipe with
  | none => exact entriesAfter hExpr hPlaced
  | some _ =>
      apply (items hExpr (.closing .curly)).bind
      intro more s₄ _ _ hMore
      exact pure (hPlaced.cons hMore)

theorem entries
    (hExpr : Orderly expr) :
    Proceeds (laid Entries.nodes s.reach) (Parse.entries expr)
      s := by
  apply skipLineEnds.bind
  intro _ s₁ _ hSkip _
  apply bind_rest
  split
  · apply (entriesFrom hExpr).mono
    intro e s₂ _ _ hEntries
    exact Fits.mono hEntries hSkip.reach (Nat.le_refl _)
  · apply (items hExpr (.closing .curly)).bind
    intro found s₂ _ _ hFound
    apply pure
    exact Fits.mono hFound hSkip.reach (Nat.le_refl _)

theorem mapBody
    (hExpr : Orderly expr)
    (hRest : s.rest = l :: ls) :
    Proceeds (heldIn Entries.nodes s.reach)
      (Parse.mapBody expr) s := by
  apply bind_currentSpan_of_cons hRest
  apply bind_skip_one hRest
  intro s₁ _ _ _ hTook
  apply (entries hExpr).bind
  rintro ⟨update, found⟩ s₂ _ _ hEntries
  have hItems :
      Fits l.span.stop (update.toList ++ found) s₂.reach := by
    rw [← hTook.reach_eq]
    exact hEntries
  -- The base of an update is not among what is closed.
  apply (close (.bracket .curly) update.toList hTook.le
    hItems).bind
  rintro ⟨found, span⟩ s₃ _ _ hHeld
  apply pure
  exact Holds.mono hHeld hTook.start (Nat.le_refl _)

------------------------------------------------------------
-- Structs
------------------------------------------------------------

theorem structSegments
    {name : Node}
    (hName : Fits a [name] s.reach) :
    Proceeds (laid nodeOf a) (Parse.structSegments k name)
      s := by
  induction k generalizing s name with
  | zero =>
      apply cutOff
      intro s' hSame
      exact Fits.mono hName (Nat.le_refl a)
        (Nat.le_of_eq hSame.symm)
  | succ k ih =>
      rw [structSegments_succ]
      apply bind_rest
      cases hSegment : segmentAhead? s.rest with
      | none => exact pure hName
      | some segment =>
          rcases exists_of_segmentAhead? hSegment with
            ⟨dot, back, hRest, _, _⟩
          apply of_placed
          intro hPlaced
          rcases hPlaced.split 2 with ⟨b, hTaken, _⟩
          rw [hRest] at hTaken
          apply (skip 2).bind
          intro _ s₁ hEq _ _
          have hState : s.advance 2 = s₁ :=
            congrArg Prod.snd hEq
          rw [hState] at hTaken
          have hMark : Holds s.reach segment.span []
              s₁.reach := by
            intro _
            have hBounds := hTaken.of_mem (x := segment.span)
              (by simp)
            exact ⟨hBounds.1, Laid.nil hBounds.2.1,
              hBounds.2.2⟩
          exact ih (hName.extendAlias hMark)

theorem structAttribute
    (hRest : s.rest = l :: ls) :
    Proceeds (laid eitherNode s.reach) (Parse.structAttribute l)
      s := by
  apply bind_skip_one hRest
  intro s₁ _ _ _ hMark
  apply (expect .identifier .attributeName).bind
  rintro (e | m) s₂ _ _ hFound
  · have hError : e.containsError = true := hFound
    exact pure (Fits.of_hasError (by simp [eitherNode, hError]))
  · have hTook : Took m s₁ s₂ := hFound
    have hName : Fits s₁.reach
        [⟨.identifier m.text, m.span⟩] s₂.reach :=
      hTook.leaf rfl rfl
    have hHolds := hName.holds.behind_mark hMark.le
      (Nat.le_of_eq hMark.reach_eq.symm)
    apply pure
    exact Fits.mono (Holds.fits hHolds rfl) hMark.start
      (Nat.le_refl _)

theorem structHead :
    Proceeds (laid eitherNode s.reach) Parse.structHead s := by
  apply bind_peek
  cases hRest : s.rest with
  | nil =>
      apply (errorNode .unexpectedEnd).bind
      intro e s₁ _ _ hError
      exact pure
        (Fits.of_hasError (by simp [eitherNode, hError]))
  | cons l ls =>
      simp only [List.head?_cons]
      split
      · apply bind_skip_one hRest
        intro s₁ _ _ _ hTook
        exact pure (hTook.leaf rfl rfl)
      · apply bind_skip_one hRest
        intro s₁ _ _ _ hTook
        exact pure (hTook.leaf rfl rfl)
      · exact structAttribute hRest
      · apply (wantedNode .structName).bind
        intro e s₁ _ _ hError
        exact pure
          (Fits.of_hasError (by simp [eitherNode, hError]))

theorem structName :
    Proceeds (laid nodeOf s.reach) Parse.structName s := by
  apply structHead.bind
  rintro (e | name) s₁ _ _ hHead
  · exact pure hHead
  · exact bind_rest (structSegments hHead)

theorem structOrMap
    (hExpr : Orderly expr)
    (hRest : s.rest = l :: ls) :
    Proceeds (laid nodeOf s.reach) (Parse.structOrMap expr)
      s := by
  apply bind_currentSpan_of_cons hRest
  apply bind_skip_one hRest
  intro s₁ _ _ _ hPercent
  have hReach := hPercent.reach_eq
  have hStart := hPercent.start
  have hLe := hPercent.le
  apply bind_isAt
  split
  · rename_i hAt
    rcases exists_of_isAt hAt with ⟨m, ms, hRest', _⟩
    apply (mapBody hExpr hRest').bind
    rintro ⟨body, span⟩ s₂ _ _ hHeld
    have hHolds := Holds.behind_mark hHeld hLe
      (Nat.le_of_eq hReach.symm)
    apply pure
    exact Fits.mono (Holds.fits (f := .map body) hHolds rfl)
      hStart (Nat.le_refl _)
  · apply structName.bind
    intro name s₂ _ _ hName
    apply bind_isAt
    split
    · rename_i hAt
      rcases exists_of_isAt hAt with ⟨m, ms, hRest', _⟩
      apply (mapBody hExpr hRest').bind
      rintro ⟨body, span⟩ s₃ _ _ hHeld
      have hBody : Holds s₂.reach span body.nodes s₃.reach :=
        hHeld
      apply pure
      apply Holds.fits _ rfl
      intro hNone
      have hNone' : ¬ HasError ([name] ++ body.nodes) := hNone
      rw [hasError_append, not_or] at hNone'
      have hNameLaid := hName hNone'.1
      rcases hBody hNone'.2 with ⟨hBegin, hLaid, hEnd⟩
      have hGap := hNameLaid.le
      have hInner := hLaid.le
      simp only [Span.start_merge, Span.stop_merge]
      refine ⟨by omega, ?_, by omega⟩
      refine Laid.cons_iff_exists.mpr
        ⟨s₂.reach, ?_, ?_⟩
      · exact hNameLaid.mono (by omega) (Nat.le_refl _)
      · exact hLaid.mono hBegin (by omega)
    · exact laid_of_containsError (wantedNode _)

end Proceeds

end ElixirReader
