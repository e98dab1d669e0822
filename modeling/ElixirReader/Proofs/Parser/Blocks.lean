import ElixirReader.Proofs.Parser.Clauses

/-
  This file shows what do blocks and anonymous functions do to
  the state. In a balanced stretch a block is ended by its own
  `end`, whatever its sections contain.

  Main declarations:
    * `Level.body`
    * `Run.fn`
    * `within_sectionsFor`
    * `Run.doBlock`
-/

namespace ElixirReader

open Parse

variable {α β : Type}
variable {h : Setting}
variable {inside : Bool}
variable {n k m : Nat}
variable {s s' : ParseState}
variable {expr : ExpressionParser}
variable {stop : Kind → Bool}
variable {l : Lexeme}
variable {ls : List Lexeme}

------------------------------------------------------------
-- Anonymous functions
------------------------------------------------------------

theorem closer?_eq_block
    (k : Kind) :
    k.closer? = some .block ↔ k = .word .end := by
  cases k with
  | closing b => simp [Kind.closer?]
  | word w => cases w <;> simp [Kind.closer?]
  | _ => simp [Kind.closer?]

theorem Level.body
    {kind : Kind}
    {d : Delimiter}
    (hExpr : Sound n expr)
    (hCloser : ∀ k : Kind, k.closer? = some d ↔ k = kind)
    (hBarrier : kind.isBarrier = true)
    (hSeparator : isSeparator kind = false) :
    Level n d (Parse.body expr (· == kind)) := by
  apply Level.of_stops hCloser
  · exact fun h s => Walk.body hExpr
  · exact fun s => rfl
  · intro s l ls hKind hWithin
    exact within_body hExpr hWithin (hKind ▸ hBarrier)
      (by simp [hKind]) (hKind ▸ hSeparator)

theorem Run.fn
    (hExpr : Sound n expr)
    (hRest : s.rest = l :: ls)
    (hKind : l.kind = .word .fn) :
    Run h n inside (Parse.fn expr) (Parse.fn expr) s := by
  apply Run.bind_currentSpan hRest
  simp only [close_bind]
  apply Run.level (d := .block) hRest
  · rw [hKind]
    rfl
  · rw [hKind]
    rfl
  · rfl
  · exact closer?_eq_block
  · exact Level.body hExpr closer?_eq_block rfl rfl
  · intro b r s' hBefore
    apply (Run.closed l.span [] r hBefore).bind
    rintro ⟨trailing, span⟩ s'' _
    simp only
    cases trailing.foldl (fun b e => b.push e) b with
    | clauses cs => exact Run.pure _
    | expressions es => exact Run.failure _ _ _

------------------------------------------------------------
-- Sections
------------------------------------------------------------

/- The words that start a further section of a block. -/
theorem isPlain_of_endsBlock
    {k : Kind}
    (hEnds : k.endsBlock = true)
    (hEnd : k ≠ .word .end) :
    k.isPlain = true := by
  cases k with
  | word w => cases w <;> first | exact absurd rfl hEnd | rfl | cases hEnds
  | _ => cases hEnds

theorem Run.unendedSection
    (opened : Span)
    (name : String)
    (b : Body Node)
    (hBefore : s.before.isSome = true) :
    Run h n inside (Parse.unendedSection opened name b)
      (Parse.unendedSection opened name b) s := by
  apply (Run.failure _ _ _).bind_le
  intro e s' _ hBefore'
  apply Run.bind_previousSpan (hBefore' hBefore)
  intro span
  exact Run.pure _

/- What follows the body of a section. -/
def sectionEnd
    (expr : ExpressionParser)
    (opened : Span)
    (k : Nat)
    (name : String)
    (b : Body Node) :
    Option Lexeme → Parse (List (Section Node) × Span)
| none => unendedSection opened name b
| some l =>
    if l.kind = .word .end then do
      skip 1
      return ([⟨name, b⟩], opened.merge l.span)
    else if l.kind.endsBlock then do
      skip 1
      let (more, span) ← sectionsFor expr opened k l.text
      return (⟨name, b⟩ :: more, span)
    else
      unendedSection opened name b

theorem sectionsFor_succ
    (opened : Span)
    (name : String) :
    sectionsFor expr opened (k + 1) name =
      body expr Kind.endsBlock >>= fun b =>
        peek >>= sectionEnd expr opened k name b :=
  rfl

/- What comes next behind the body of a section. -/
inductive SectionCase
    (s : ParseState) : Prop where
| unended
    (hNext : ∀ l, s.rest.head? = some l →
      l.kind.endsBlock = false)
| ended
    (l : Lexeme)
    (ls : List Lexeme)
    (hRest : s.rest = l :: ls)
    (hKind : l.kind = .word .end)
| further
    (l : Lexeme)
    (ls : List Lexeme)
    (hRest : s.rest = l :: ls)
    (hKind : l.kind ≠ .word .end)
    (hEnds : l.kind.endsBlock = true)

theorem sectionCase
    (s : ParseState) :
    SectionCase s := by
  cases hRest : s.rest with
  | nil =>
      apply SectionCase.unended
      intro l hHead
      rw [hRest] at hHead
      cases hHead
  | cons l ls =>
      by_cases hKind : l.kind = .word .end
      · exact .ended l ls hRest hKind
      · cases hEnds : l.kind.endsBlock with
        | true => exact .further l ls hRest hKind hEnds
        | false =>
            apply SectionCase.unended
            intro m hHead
            rw [hRest] at hHead
            cases hHead
            exact hEnds

section Sections

variable {opened : Span}
variable {name : String}
variable {b : Body Node}

theorem sectionEnd_of_unended
    (hNext : ∀ l, s.rest.head? = some l →
      l.kind.endsBlock = false) :
    sectionEnd expr opened k name b s.rest.head? =
      unendedSection opened name b := by
  cases hHead : s.rest.head? with
  | none => rfl
  | some l =>
      have hNot := hNext l hHead
      have hKind : l.kind ≠ .word .end := by
        intro hKind
        rw [hKind] at hNot
        cases hNot
      simp [sectionEnd, hKind, hNot]

theorem sectionEnd_of_ended
    (hRest : s.rest = l :: ls)
    (hKind : l.kind = .word .end) :
    sectionEnd expr opened k name b s.rest.head? = (do
      skip 1
      return ([⟨name, b⟩], opened.merge l.span)) := by
  simp [sectionEnd, hRest, hKind]

theorem sectionEnd_of_further
    (hRest : s.rest = l :: ls)
    (hKind : l.kind ≠ .word .end)
    (hEnds : l.kind.endsBlock = true) :
    sectionEnd expr opened k name b s.rest.head? = (do
      skip 1
      let (more, span) ← sectionsFor expr opened k l.text
      return (⟨name, b⟩ :: more, span)) := by
  simp [sectionEnd, hRest, hKind, hEnds]

/- Lexemes are taken, and a poisoned statement is left so. -/
def Keeps
    (n : Nat)
    (s s' : ParseState) : Prop :=
  (∃ taken, Moves n taken s s') ∧
    (s.poisoned = true → s'.poisoned = true)

theorem Keeps.trans
    {s'' : ParseState}
    (hFirst : Keeps n s s')
    (hSecond : Keeps n s' s'') :
    Keeps n s s'' := by
  rcases hFirst with ⟨⟨taken, hMoves⟩, hPoisoned⟩
  rcases hSecond with ⟨⟨taken', hMoves'⟩, hPoisoned'⟩
  exact ⟨⟨_, hMoves.trans hMoves'⟩,
    fun hStart => hPoisoned' (hPoisoned hStart)⟩

theorem Steady.keeps
    {taken : List Lexeme}
    (hSteady : Steady n taken s s') :
    Keeps n s s' :=
  ⟨⟨taken, hSteady.toMoves⟩, hSteady.poisoned⟩

theorem Run.keeps
    {p q : Parse α}
    (hRun : Run h n inside p q s) :
    Keeps n s (p s).2 := by
  rcases hRun.takes with ⟨taken, hTakes⟩
  exact hTakes.toSteady.keeps

theorem keeps_body
    (hExpr : Sound n expr)
    (s : ParseState) :
    Keeps n s (body expr stop s).2 := by
  have hBody :
      Walk .any n true (body expr stop) (body expr stop) s :=
    Walk.body hExpr
  exact ⟨hBody.moves, fun hPoisoned => hPoisoned⟩

theorem keeps_sectionEnd
    (name : String)
    (b : Body Node)
    (hBefore : s.before.isSome = true)
    (hNext : ∀ name s', s'.rest.length < s.rest.length →
      s'.before.isSome = true →
        Keeps n s' (sectionsFor expr opened k name s').2) :
    Keeps n s (sectionEnd expr opened k name b s.rest.head?
      s).2 := by
  cases sectionCase s with
  | unended hOther =>
      rw [sectionEnd_of_unended hOther]
      have hUnended :
          Run .any n true (unendedSection opened name b)
            (unendedSection opened name b) s :=
        Run.unendedSection opened name b hBefore
      exact hUnended.keeps
  | ended l ls hRest hKind =>
      rw [sectionEnd_of_ended hRest hKind]
      exact (Steady.advance n 1 s).keeps
  | further l ls hRest hKind hEnds =>
      rw [sectionEnd_of_further hRest hKind hEnds]
      have hSkip := Steady.advance n 1 s
      have hLess : (s.advance 1).rest.length < s.rest.length := by
        rw [(ParseState.take_one hRest).2, hRest]
        exact Nat.lt_succ_self _
      have hBefore' := hSkip.before (.inr hBefore)
      exact hSkip.keeps.trans
        (hNext l.text (s.advance 1) hLess hBefore')

theorem keeps_sectionsFor
    (opened : Span)
    (name : String)
    (hExpr : Sound n expr)
    (hBound : s.rest.length < k)
    (hBefore : s.before.isSome = true) :
    Keeps n s (sectionsFor expr opened k name s).2 := by
  induction k generalizing s name with
  | zero => omega
  | succ k ih =>
      have hBody := @keeps_body n expr Kind.endsBlock hExpr s
      rcases hBody.1 with ⟨taken, hMoves⟩
      have hLength := hMoves.length_rest
      rw [sectionsFor_succ, Parse.bind_apply]
      apply hBody.trans
      apply keeps_sectionEnd _ _ (hMoves.before (.inr hBefore))
      intro name s' hLess hBefore'
      exact ih name (by omega) hBefore'

/-
  In a block that is ended, its sections are, and the poison
  of the statement around is left as it was.
-/
theorem within_sectionsFor
    (opened : Span)
    (name : String)
    (hExpr : Sound n expr)
    (hBound : s.rest.length < k)
    (hWithin : Within [] (l :: ls) s)
    (hKind : l.kind = .word .end) :
    (sectionsFor expr opened k name s).2.rest = ls ∧
      (sectionsFor expr opened k name s).2.poisoned =
        s.poisoned := by
  induction k generalizing s name with
  | zero => omega
  | succ k ih =>
      have hBarrier : l.kind.isBarrier = true := by
        rw [hKind]
        rfl
      rcases (@keeps_body n expr Kind.endsBlock hExpr s).1 with
        ⟨taken, hMoves⟩
      have hLength := hMoves.length_rest
      have hEnd :
          Within [] (l :: ls)
              (body expr Kind.endsBlock s).2 ∧
            ∃ m ms,
              (body expr Kind.endsBlock s).2.rest = m :: ms ∧
                m.kind.endsBlock = true := by
        apply within_body hExpr hWithin hBarrier
        · rw [hKind]
          rfl
        · rw [hKind]
          rfl
      rcases hEnd with ⟨hBody, m, ms, hNext, hStop⟩
      rw [sectionsFor_succ, Parse.bind_apply]
      change (sectionEnd expr opened k name _
        (body expr Kind.endsBlock s).2.rest.head?
        (body expr Kind.endsBlock s).2).2.rest = ls ∧
        (sectionEnd expr opened k name _
          (body expr Kind.endsBlock s).2.rest.head?
          (body expr Kind.endsBlock s).2).2.poisoned =
          (body expr Kind.endsBlock s).2.poisoned
      generalize (body expr Kind.endsBlock s).2 = s₁ at *
      by_cases hLast : m.kind = .word .end
      · rw [sectionEnd_of_ended hNext hLast]
        have hRest := hBody.rest_eq_of_closer hNext (by
          rw [hLast]
          rfl)
        exact ⟨(ParseState.take_one hRest).2, rfl⟩
      · rw [sectionEnd_of_further hNext hLast hStop]
        have hTake := ParseState.take_one hNext
        have hPlain := isPlain_of_endsBlock hStop hLast
        have hFurther : Within [] (l :: ls) (s₁.advance 1) := by
          apply @Within.of_isPlain [] (l :: ls) s₁
            (s₁.advance 1) [m] hBody hBarrier rfl
          · rw [hNext, hTake.2]
            rfl
          · intro m' hMem
            rw [List.mem_singleton] at hMem
            rw [hMem]
            exact hPlain
        apply ih m.text _ hFurther
        rw [hTake.2]
        rw [hNext, List.length_cons] at hLength
        omega

theorem tracks_sectionEnd
    (name : String)
    (b : Body Node)
    (hBefore : s.before.isSome = true)
    (hKeeps : ∀ name s', s'.rest.length < s.rest.length →
      s'.before.isSome = true →
        Keeps n s' (sectionsFor expr opened k name s').2)
    (hNext : ∀ name s', s'.rest.length < s.rest.length →
      s'.before.isSome = true →
        Tracks h true (sectionsFor expr opened k name)
          (sectionsFor expr opened m name) s') :
    Tracks h true
      (sectionEnd expr opened k name b s.rest.head?)
      (sectionEnd expr opened m name b s.rest.head?) s := by
  cases sectionCase s with
  | unended hOther =>
      rw [sectionEnd_of_unended hOther,
        sectionEnd_of_unended hOther]
      have hUnended :
          Run h 0 true (unendedSection opened name b)
            (unendedSection opened name b) s :=
        Run.unendedSection opened name b hBefore
      exact hUnended.tracks
  | ended l ls hRest hKind =>
      rw [sectionEnd_of_ended hRest hKind,
        sectionEnd_of_ended hRest hKind]
      intro _
      rw [Parse.bind_apply, h.place_skip hRest]
      rfl
  | further l ls hRest hKind hEnds =>
      rw [sectionEnd_of_further hRest hKind hEnds,
        sectionEnd_of_further hRest hKind hEnds]
      have hPlain := isPlain_of_endsBlock hEnds hKind
      have hTakes := Takes.advance_one n hRest hPlain
      have hLess : (s.advance 1).rest.length < s.rest.length := by
        rw [(ParseState.take_one hRest).2, hRest]
        exact Nat.lt_succ_self _
      have hBefore' := hTakes.before (.inr hBefore)
      rcases hKeeps l.text (s.advance 1) hLess hBefore' with
        ⟨⟨taken, hMoves⟩, _⟩
      intro hAgrees
      have hPlace := h.place_skip hRest
      have hSections := hNext l.text (s.advance 1) hLess
        hBefore' (hAgrees.right hTakes hMoves)
      rw [Parse.bind_apply, hPlace, Parse.bind_apply, hSections]
      rfl

/- Inside of a block both runs see what ends a section. -/
theorem tracks_sectionsFor
    (opened : Span)
    (name : String)
    (hExpr : Sound n expr)
    (hBound : s.rest.length < k)
    (hBound' : s.rest.length + h.after.length < m)
    (hBefore : s.before.isSome = true) :
    Tracks h true (sectionsFor expr opened k name)
      (sectionsFor expr opened m name) s := by
  induction k generalizing m s name with
  | zero => omega
  | succ k ih =>
      cases m with
      | zero => omega
      | succ m =>
          have hBody :
              Walk h n true (body expr Kind.endsBlock)
                (body expr Kind.endsBlock) s :=
            Walk.body hExpr
          rcases hBody.moves with ⟨taken, hMoves⟩
          have hLength := hMoves.length_rest
          have hBefore' := hMoves.before (.inr hBefore)
          have hKeeps :
              ∀ name s',
                s'.rest.length <
                    (body expr Kind.endsBlock s).2.rest.length →
                  s'.before.isSome = true →
                    Keeps n s'
                      (sectionsFor expr opened k name s').2 := by
            intro name s' hLess hBefore''
            exact keeps_sectionsFor opened name hExpr
              (by omega) hBefore''
          rcases (keeps_sectionEnd name
            (body expr Kind.endsBlock s).1 hBefore' hKeeps).1
            with ⟨taken', hMoves'⟩
          rw [sectionsFor_succ, sectionsFor_succ]
          apply hBody.tracks.bind hMoves hMoves' hBody.clean
          intro hAgrees
          have hHead := hAgrees.sees.head?_append_of_inside
          have hEnd := tracks_sectionEnd name
            (body expr Kind.endsBlock s).1 hBefore' hKeeps
            (fun name s' hLess hBefore'' =>
              @ih m s' name (by omega) (by omega) hBefore'')
          change sectionEnd expr opened m name _
            ((body expr Kind.endsBlock s).2.rest ++
              h.after).head? _ = _
          rw [hHead]
          exact hEnd hAgrees

end Sections

------------------------------------------------------------
-- Do blocks
------------------------------------------------------------

/- A do block is taken as a whole. -/
theorem passes_doBlock
    (opened : Span)
    (hExpr : Sound n expr)
    (hRest : s.rest = l :: ls)
    (hKind : l.kind = .word .do) :
    ∃ taken, Passes n [] [] taken s
      (sectionsFor expr opened ((s.advance 1).rest.length + 1)
        "do" (s.advance 1)).2 := by
  have hOpens := Passes.opens (d := .block) n hRest (by
    rw [hKind]
    rfl)
  have hStarted : (s.advance 1).before.isSome = true :=
    hOpens.before (.inl (List.cons_ne_nil l []))
  have hBound := Nat.lt_succ_self (s.advance 1).rest.length
  rcases keeps_sectionsFor opened "do" hExpr hBound hStarted
    with ⟨⟨taken, hMoves⟩, hPoisoned⟩
  refine ⟨[l] ++ taken, ⟨hOpens.toMoves.trans hMoves, ?_, ?_⟩,
    ?_⟩
  · exact hPoisoned
  · intro hKinds
    have hNone := hKinds l (by simp)
    rw [hKind] at hNone
    cases hNone
  · intro fs after hAfter hWithin
    have hOpen := (hOpens.within fs after hAfter hWithin).1
    rcases hOpen.exists_closer rfl with
      ⟨m, ms, hM, hInner, hOuter⟩
    have hSections := within_sectionsFor opened "do" hExpr
      hBound hInner ((closer?_eq_block m.kind).mp hM)
    refine ⟨hOuter _ hSections.1, ?_⟩
    intro _ hClean hEnd
    rw [hSections.2] at hEnd
    change s.poisoned = true at hEnd
    rw [hClean] at hEnd
    cases hEnd

theorem Run.doBlock
    (hExpr : Sound n expr)
    (hRest : s.rest = l :: ls)
    (hKind : l.kind = .word .do) :
    Run h n inside (Parse.doBlock expr) (Parse.doBlock expr)
      s := by
  apply Run.bind_currentSpan hRest
  have hOpener : l.kind.opener? = some .block := by
    rw [hKind]
    rfl
  have hOpens := Passes.opens n hRest hOpener
  have hStarted : (s.advance 1).before.isSome = true :=
    hOpens.before (.inl (List.cons_ne_nil l []))
  rcases passes_doBlock l.span hExpr hRest hKind with
    ⟨taken, hPasses⟩
  constructor
  · exact ⟨taken, hPasses.takes⟩
  · intro hAgrees
    -- Inside of the block a lexeme always follows.
    have hOpen :
        h.Agrees true (s.advance 1)
          (sectionsFor expr l.span
            ((s.advance 1).rest.length + 1) "do"
            (s.advance 1)).2 := by
      rcases hAgrees with hWhole | ⟨hClean, hErrors⟩
      · exact .inl (hWhole.step hOpens.toMoves)
      · exact .inr ⟨hClean.opens hRest hOpener rfl, hErrors⟩
    have hPlace := h.place_skip hRest
    have hSections := tracks_sectionsFor
      (m := ((s.advance 1).rest ++ h.after).length + 1)
      l.span "do" hExpr
      (Nat.lt_succ_self _) (by
        rw [List.length_append]
        omega) hStarted hOpen
    rw [Parse.bind_apply, hPlace, Parse.bind_apply]
    change (sectionsFor expr l.span
      (((s.advance 1).rest ++ h.after).length + 1) "do" >>= _)
      (h.place (s.advance 1)) = _
    rw [Parse.bind_apply, hSections]
    rfl

end ElixirReader
