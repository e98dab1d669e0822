import ElixirReader.Proofs.Parser.Statements

/-
  This file shows what constructs between delimiters do to
  the state. Elements between brackets may leave the closing
  bracket out of sight when they are faulty. Statements never
  do: they end at what closes the construct.

  Key definitions include:
    * `Level`

  Main declarations:
    * `Within.exists_closer`
    * `Tracks.delimited`
    * `Run.bracketed`
    * `Run.level`
-/

namespace ElixirReader

open Parse

variable {α β : Type}
variable {h : Setting}
variable {inside : Bool}
variable {n : Nat}
variable {s s' : ParseState}
variable {expr : ExpressionParser}

------------------------------------------------------------
-- Inside of delimiters
------------------------------------------------------------

/-
  What is inside of a delimiter is a balanced stretch of its
  own, which ends at what closes the delimiter.
-/
theorem Within.exists_closer
    {d : Delimiter}
    {ds : Nest}
    {after : List Lexeme}
    (hWithin : Within (d :: ds) after s)
    (hCode : d.isText = false) :
    ∃ l ls, l.kind.closer? = some d ∧
      Within [] (l :: ls) s ∧
      ∀ s' : ParseState, s'.rest = ls → Within ds after s' := by
  rcases hWithin with ⟨ms, hRest, hBehind⟩
  rcases Nest.exists_closer hCode hBehind with
    ⟨inner, l, outer, rfl, hInner, hCloser, hOuter⟩
  refine ⟨l, outer ++ after, hCloser, ⟨inner, ?_, hInner⟩, ?_⟩
  · rw [hRest, List.append_assoc, List.cons_append]
  · intro s' hRest'
    exact ⟨outer, hRest', hOuter⟩

/- With nothing open, what comes next closes nothing before the end. -/
theorem Within.rest_eq_of_closer
    {after : List Lexeme}
    {l : Lexeme}
    {ls : List Lexeme}
    (hWithin : Within [] after s)
    (hRest : s.rest = l :: ls)
    (hCloser : l.kind.closer?.isSome = true) :
    s.rest = after := by
  rcases hWithin with ⟨ms, hEq, hBehind⟩
  cases ms with
  | nil => exact hEq
  | cons m ms =>
      exfalso
      rw [hRest, List.cons_append] at hEq
      rcases List.cons.inj hEq with ⟨rfl, _⟩
      rcases Nest.exists_of_behind?_cons hBehind with
        ⟨ds, hNext, _⟩
      rcases Option.isSome_iff_exists.mp hCloser with ⟨d, hD⟩
      have hNil := Nest.next?_of_closer? hD hNext
      cases hNil

/- The state behind what opens a delimiter fits inside of it. -/
theorem Setting.Fits.opens
    {ds : Nest}
    {after : List Lexeme}
    {l : Lexeme}
    {ls : List Lexeme}
    {d : Delimiter}
    (hFits : h.Fits inside ds after s)
    (hRest : s.rest = l :: ls)
    (hOpener : l.kind.opener? = some d) :
    h.Fits true (d :: ds) after (s.advance 1) := by
  have hOpens := Passes.opens 0 hRest hOpener
  have hWithin :=
    (hOpens.within ds after hFits.bounds.barrier
      hFits.within).1
  have hFaultless := hFits.faultless
  rw [hOpens.rest, Faultless.append_iff] at hFaultless
  refine ⟨?_, hWithin, hFits.poisoned, hFaultless.2⟩
  cases hFits.bounds with
  | ends m ms hEnds _ =>
      exact .ends m ms hEnds (fun _ => List.cons_ne_nil d ds)
  | closer m ms hBarrier hKind =>
      exact .closer m ms hBarrier hKind

theorem Setting.Clean.opens
    {l : Lexeme}
    {ls : List Lexeme}
    {d : Delimiter}
    (hClean : h.Clean inside s)
    (hRest : s.rest = l :: ls)
    (hOpener : l.kind.opener? = some d)
    (hCode : d.isText = false) :
    h.Clean true (s.advance 1) := by
  rcases hClean with ⟨ds, after, hFits, _⟩
  exact ⟨d :: ds, after, hFits.opens hRest hOpener,
    by simp [Nest.isCode, hCode]⟩

------------------------------------------------------------
-- Comparison
------------------------------------------------------------

/-
  Both runs open a construct, do what is inside, and see what
  closes it. What follows depends on the whole construct.
-/
theorem Tracks.delimited
    {l : Lexeme}
    {ls taken taken' : List Lexeme}
    {d : Delimiter}
    {closer : Closer}
    {opened : Span}
    {p q : Parse α}
    {f g : α → Except Node Lexeme → Parse β}
    {r : Except Node Lexeme × ParseState}
    (hRest : s.rest = l :: ls)
    (hOpener : l.kind.opener? = some d)
    (hCode : d.isText = false)
    (hInside : Walk h n true p q (s.advance 1))
    (hResult :
      r = Parse.expectClosing closer opened (p (s.advance 1)).2)
    (hTakes : Takes n taken s r.2)
    (hMoves : Moves n taken' r.2
      (f (p (s.advance 1)).1 r.1 r.2).2)
    (hBehind : Tracks h inside (f (p (s.advance 1)).1 r.1)
      (g (p (s.advance 1)).1 r.1) r.2) :
    Tracks h inside
      (do
        Parse.skip 1
        let a ← p
        let r ← Parse.expectClosing closer opened
        f a r)
      (do
        Parse.skip 1
        let a ← q
        let r ← Parse.expectClosing closer opened
        g a r) s := by
  intro hAgrees
  subst hResult
  let r := Parse.expectClosing closer opened (p (s.advance 1)).2
  have hEnd : h.Agrees inside s
      (f (p (s.advance 1)).1 r.1 r.2).2 := hAgrees
  have hOpens := Passes.opens n hRest hOpener
  rcases hInside.moves with ⟨more, hMore⟩
  rcases (closing_expectClosing n closer opened
    (p (s.advance 1)).2).steady with ⟨last, hSteady⟩
  have hClosed := hEnd.left hTakes.toMoves hMoves
  -- Inside, the runs agree through what closes the construct.
  have hOpen : h.Agrees true (s.advance 1) r.2 := by
    rcases hClosed with hIsWhole | ⟨hClean, hErrors⟩
    · exact .inl (hIsWhole.step hOpens.toMoves)
    · exact .inr
        ⟨hClean.opens hRest hOpener hCode, hErrors⟩
  have hLast : h.Agrees true (p (s.advance 1)).2 r.2 := by
    rcases hOpen with hIsWhole | ⟨hClean, hErrors⟩
    · exact .inl (hIsWhole.step hMore)
    · have hBoth := hMore.errors_eq hSteady.toMoves hErrors
      exact .inr ⟨hInside.clean hClean hBoth.1, hBoth.2⟩
  -- The second run, step by step.
  have hFirst := h.place_skip hRest
  have hSecond := hInside.tracks
    (hOpen.left hMore hSteady.toMoves)
  have hThird :
      Parse.expectClosing closer opened
        (h.place (p (s.advance 1)).2) = (r.1, h.place r.2) :=
    tracks_expectClosing closer opened hLast
  rw [Parse.bind_apply, hFirst, Parse.bind_apply, hSecond,
    Parse.bind_apply, hThird]
  exact hBehind (hEnd.right hTakes hMoves)

------------------------------------------------------------
-- Brackets
------------------------------------------------------------

/- A part of the parser between brackets. -/
theorem Run.bracketed
    {b : Bracket}
    {l : Lexeme}
    {ls : List Lexeme}
    {opened : Span}
    {p q : Parse α}
    {f g : α → Except Node Lexeme → Parse β}
    (hRest : s.rest = l :: ls)
    (hOpening : l.kind = .opening b)
    (hInside : ∀ s', s'.rest = ls → s'.before.isSome = true →
      Run h n true p q s')
    (hBehind : ∀ a r s', s'.before.isSome = true →
      Run h n inside (f a r) (g a r) s') :
    Run h n inside
      (do
        Parse.skip 1
        let a ← p
        let r ← Parse.expectClosing (.bracket b) opened
        f a r)
      (do
        Parse.skip 1
        let a ← q
        let r ← Parse.expectClosing (.bracket b) opened
        g a r) s := by
  have hOpener : l.kind.opener? = some (.bracket b) := by
    rw [hOpening]
    rfl
  have hOpens := Passes.opens n hRest hOpener
  have hStarted : (s.advance 1).before.isSome = true :=
    hOpens.before (.inl (List.cons_ne_nil l []))
  have hInner := hInside (s.advance 1)
    (ParseState.take_one hRest).2 hStarted
  rcases hInner.takes with ⟨taken, hTakes⟩
  generalize hResult : Parse.expectClosing (.bracket b) opened
    (p (s.advance 1)).2 = r
  have hClosing : Closing n (.bracket b) (p (s.advance 1)).2 r := by
    rw [← hResult]
    exact closing_expectClosing n (.bracket b) opened _
  rcases hClosing.steady with ⟨more, hSteady⟩
  have hBefore : r.2.before.isSome = true :=
    hSteady.before (.inr (hTakes.before (.inr hStarted)))
  have hNext := hBehind (p (s.advance 1)).1 r.1 r.2 hBefore
  rcases hNext.takes with ⟨last, hLast⟩
  have hWhole : ∃ taken', Takes n taken' s r.2 := by
    cases hClosing with
    | closed m ms more s' hTakes' hRest' hKind =>
        exact ⟨_, Takes.bracketed hRest hOpening
          (hTakes.trans hTakes') hRest' hKind⟩
    | missing e more s' hTakes' hPoisoned =>
        exact ⟨_, Takes.unclosed hRest hOpening
          (hTakes.trans hTakes') hPoisoned⟩
  rcases hWhole with ⟨taken', hWhole⟩
  constructor
  · refine ⟨taken' ++ last, ?_⟩
    have hAll := hWhole.trans hLast
    rw [← hResult] at hAll
    exact hAll
  · exact Tracks.delimited hRest hOpener rfl hInner.walk
      hResult.symm hWhole hLast.toMoves hNext.tracks

------------------------------------------------------------
-- Statements between delimiters
------------------------------------------------------------

/-
  A part of the parser that consists of statements and ends
  at what closes a delimiter.
-/
structure Level
    (n : Nat)
    (d : Delimiter)
    (p : Parse α) : Prop where
  walk : ∀ (h : Setting) (s : ParseState), Walk h n true p p s
  poisoned : ∀ s, (p s).2.poisoned = s.poisoned
  rest : ∀ (s : ParseState) (l : Lexeme) (ls : List Lexeme),
    l.kind.closer? = some d →
      Within [] (l :: ls) s → (p s).2.rest = l :: ls

/- What stops at a kind ends at the delimiter that it closes. -/
theorem Level.of_stops
    {kind : Kind}
    {d : Delimiter}
    {p : Parse α}
    (hCloser : ∀ k : Kind, k.closer? = some d ↔ k = kind)
    (hWalk : ∀ (h : Setting) (s : ParseState),
      Walk h n true p p s)
    (hPoisoned : ∀ s, (p s).2.poisoned = s.poisoned)
    (hStops : ∀ (s : ParseState) (l : Lexeme)
      (ls : List Lexeme),
      l.kind = kind →
        Within [] (l :: ls) s →
          Within [] (l :: ls) (p s).2 ∧
            ∃ m ms, (p s).2.rest = m :: ms ∧
              (m.kind == kind) = true) :
    Level n d p := by
  refine ⟨hWalk, hPoisoned, ?_⟩
  intro s l ls hL hWithin
  rcases hStops s l ls ((hCloser l.kind).mp hL) hWithin with
    ⟨hEnd, m, ms, hRest, hStop⟩
  apply hEnd.rest_eq_of_closer hRest
  rw [(hCloser m.kind).mpr (by simpa using hStop)]
  rfl

theorem Level.statements
    {kind : Kind}
    {d : Delimiter}
    (hExpr : Sound n expr)
    (hCloser : ∀ k : Kind, k.closer? = some d ↔ k = kind)
    (hBarrier : kind.isBarrier = true)
    (hSeparator : isSeparator kind = false) :
    Level n d (Parse.statements expr (· == kind)) := by
  apply Level.of_stops hCloser
  · exact fun h s => Walk.statements hExpr
  · exact fun s => rfl
  · intro s l ls hKind hWithin
    exact within_statements hExpr hWithin (hKind ▸ hBarrier)
      (by simp [hKind]) (hKind ▸ hSeparator)

theorem expectClosing_of_cons
    {closer : Closer}
    {l : Lexeme}
    {ls : List Lexeme}
    (opened : Span)
    (hRest : s.rest = l :: ls)
    (hKind : l.kind = closer.kind) :
    expectClosing closer opened s = (.ok l, s.advance 1) := by
  have hLineEnd : isLineEnd l.kind = false := by
    rw [hKind]
    cases closer <;> rfl
  have hSkip : skipLineEnds s = ((), s) := by
    change ((), s.advance (runLength isLineEnd s.rest)) = _
    have hZero : runLength isLineEnd s.rest = 0 := by
      simp [runLength, hRest, hLineEnd]
    rw [hZero]
    rfl
  rw [expectClosing_eq, Parse.bind_apply, hSkip,
    closeHere_of_cons closer opened hRest]
  exact expect_of_cons _ hRest hKind

/- Statements with the delimiters around them, as one part. -/
theorem Run.level
    {d : Delimiter}
    {closer : Closer}
    {l : Lexeme}
    {ls : List Lexeme}
    {opened : Span}
    {p : Parse α}
    {f : α → Except Node Lexeme → Parse β}
    (hRest : s.rest = l :: ls)
    (hOpener : l.kind.opener? = some d)
    (hNests : l.kind.nestsStatements = true)
    (hCode : d.isText = false)
    (hCloser : ∀ k : Kind, k.closer? = some d ↔
      k = closer.kind)
    (hLevel : Level n d p)
    (hBehind : ∀ a r s', s'.before.isSome = true →
      Run h n inside (f a r) (f a r) s') :
    Run h n inside
      (do
        Parse.skip 1
        let a ← p
        let r ← Parse.expectClosing closer opened
        f a r)
      (do
        Parse.skip 1
        let a ← p
        let r ← Parse.expectClosing closer opened
        f a r) s := by
  have hOpens := Passes.opens n hRest hOpener
  have hStarted : (s.advance 1).before.isSome = true :=
    hOpens.before (.inl (List.cons_ne_nil l []))
  have hWalk := hLevel.walk h (s.advance 1)
  rcases hWalk.moves with ⟨taken, hMoves⟩
  generalize hResult : Parse.expectClosing closer opened
    (p (s.advance 1)).2 = r
  have hClosing : Closing n closer (p (s.advance 1)).2 r := by
    rw [← hResult]
    exact closing_expectClosing n closer opened _
  rcases hClosing.steady with ⟨more, hSteady⟩
  have hBefore : r.2.before.isSome = true :=
    hSteady.before (.inr (hMoves.before (.inr hStarted)))
  have hNext := hBehind (p (s.advance 1)).1 r.1 r.2 hBefore
  rcases hNext.takes with ⟨last, hLast⟩
  have hWhole :
      Takes n ([l] ++ taken ++ more) s r.2 := by
    apply Passes.takes
    refine ⟨⟨(hOpens.toMoves.trans hMoves).trans
      hSteady.toMoves, ?_, ?_⟩, ?_⟩
    · intro hPoisoned
      apply hSteady.poisoned
      rw [hLevel.poisoned]
      exact hPoisoned
    · intro hKinds
      have hNone := hKinds l (by simp)
      rw [hNests] at hNone
      cases hNone
    · intro fs after hAfter hWithin
      have hOpen := (hOpens.within fs after hAfter hWithin).1
      rcases hOpen.exists_closer hCode with
        ⟨m, ms, hM, hInner, hOuter⟩
      have hEnd := hLevel.rest _ m ms hM hInner
      have hOk := expectClosing_of_cons opened hEnd
        ((hCloser m.kind).mp hM)
      rw [hResult] at hOk
      subst hOk
      refine ⟨hOuter _ ?_, ?_⟩
      · exact (ParseState.take_one hEnd).2
      · intro _ hClean hPoisoned
        change (p (s.advance 1)).2.poisoned = true at hPoisoned
        rw [hLevel.poisoned] at hPoisoned
        change s.poisoned = true at hPoisoned
        rw [hClean] at hPoisoned
        cases hPoisoned
  constructor
  · refine ⟨([l] ++ taken ++ more) ++ last, ?_⟩
    have hAll := hWhole.trans hLast
    rw [← hResult] at hAll
    exact hAll
  · exact Tracks.delimited hRest hOpener hCode hWalk
      hResult.symm hWhole hLast.toMoves hNext.tracks

end ElixirReader
