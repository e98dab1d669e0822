import ElixirReader.Proofs.Parser.Texts
import ElixirReader.Parser.Number

/-
  This file shows that looking ahead sees the same in a larger
  text. The lexemes behind a balanced stretch never matter,
  but for one case: a quoted key whose colon is the very last
  lexeme of the smaller text.

  Key definitions include:
    * `EndsInKey`

  Main declarations:
    * `Setting.Sees.infixAhead?_append`
    * `Setting.Sees.argumentAhead_append`
    * `Setting.Sees.keywordAhead_append`
    * `Setting.Sees.parenthesizedHeadAhead_append`
-/

namespace ElixirReader

open Parse

variable {h : Setting}
variable {inside : Bool}
variable {n : Nat}
variable {s s' : ParseState}

theorem isPlain_of_isNumberPart
    {k : Kind}
    (hNumber : k.isNumberPart = true) :
    k.isPlain = true := by
  cases k <;> first | rfl | cases hNumber

theorem isNumberPart_of_isBarrier
    {k : Kind}
    (hBarrier : k.isBarrier = true) :
    k.isNumberPart = false := by
  cases k <;> first | rfl | cases hBarrier

theorem isNumberPart_of_endsText
    {k : Kind}
    (hEnds : k.endsText = true) :
    k.isNumberPart = false := by
  cases k <;> first | rfl | cases hEnds

namespace Setting

------------------------------------------------------------
-- Steps
------------------------------------------------------------

theorem Sees.step
    {taken : List Lexeme}
    (hSees : h.Sees inside s)
    (hTakes : Takes n taken s s')
    (hErrors : s'.errors = s.errors) :
    h.Sees inside s' := by
  rcases hSees with hWhole | hClean
  · exact .inl (hWhole.step hTakes.toMoves)
  · exact .inr (hClean.step hTakes hErrors)

theorem Sees.advance_one
    {l : Lexeme}
    {ls : List Lexeme}
    (hSees : h.Sees inside s)
    (hRest : s.rest = l :: ls)
    (hPlain : l.kind.isPlain = true) :
    h.Sees inside (s.advance 1) :=
  hSees.step (Takes.advance_one 0 hRest hPlain) rfl

theorem Sees.skipLineEnds
    (hSees : h.Sees inside s) :
    h.Sees inside (Parse.skipLineEnds s).2 := by
  rcases Takes.skipLineEnds 0 s with ⟨taken, hTakes⟩
  exact hSees.step hTakes rfl

/- The end of the text, or what ends it in the larger one. -/
theorem Sees.after_cases
    (hSees : h.Sees inside s)
    (hRest : s.rest = []) :
    h.after = [] ∨ ∃ l ls, h.Ends l ls := by
  rcases hSees with hWhole | hClean
  · exact .inl hWhole.1
  · exact .inr (hClean.after_eq hRest)

/-
  What looks at the next lexeme only, and sees no difference
  between what ends the text and no lexeme at all.
-/
theorem Sees.append_of_head
    {γ : Type}
    {f : List Lexeme → γ}
    (hSees : h.Sees inside s)
    (hHead : ∀ l ls ms, f (l :: ls) = f (l :: ms))
    (hEnds : ∀ l ls, l.kind.endsText = true →
      f (l :: ls) = f []) :
    f (s.rest ++ h.after) = f s.rest := by
  cases hRest : s.rest with
  | cons l ls => exact hHead l _ ls
  | nil =>
      rcases hSees.after_cases hRest with
        hAfter | ⟨l, ls, hIsEnd⟩
      · rw [hAfter]
        rfl
      · rw [hIsEnd.after]
        exact hEnds l ls hIsEnd.kind

------------------------------------------------------------
-- Arrows, numbers and arguments
------------------------------------------------------------

theorem Sees.captureArgumentAhead_append
    (hSees : h.Sees inside s) :
    captureArgumentAhead (s.rest ++ h.after) =
      captureArgumentAhead s.rest := by
  apply hSees.append_of_head
  · exact fun _ _ _ => rfl
  · intro l ls hKind
    rcases Kind.endsText_cases hKind with hKind | hKind | hKind | hKind
      <;> simp [captureArgumentAhead, hKind]

theorem Sees.numberParts_append
    (hSees : h.Sees inside s) :
    numberParts (s.rest ++ h.after) = numberParts s.rest := by
  cases hRest : s.rest with
  | nil =>
      rcases hSees.after_cases hRest with
        hAfter | ⟨l, ls, hIsEnd⟩
      · rw [hAfter]
        rfl
      · rw [hIsEnd.after]
        simp [numberParts, isNumberPart_of_endsText hIsEnd.kind]
  | cons l ls =>
      cases hNumber : l.kind.isNumberPart with
      | false => simp [numberParts, hNumber]
      | true =>
          have hNext := hSees.advance_one hRest
            (isPlain_of_isNumberPart hNumber)
          have hSame := hNext.takeWhile_append
            (fun m => m.kind.isNumberPart && !m.spaced) (by
              intro m hBarrier
              simp [isNumberPart_of_isBarrier hBarrier]) (by
              intro m hEnds
              simp [isNumberPart_of_endsText hEnds])
          rw [(ParseState.take_one hRest).2] at hSame
          simp only [List.cons_append, numberParts, hNumber,
            if_true, hSame]

theorem Sees.argumentAhead_append
    (hSees : h.Sees inside s) :
    argumentAhead (s.rest ++ h.after) =
      argumentAhead s.rest := by
  cases hRest : s.rest with
  | nil =>
      rcases hSees.after_cases hRest with
        hAfter | ⟨l, ls, hIsEnd⟩
      · rw [hAfter]
        rfl
      · rw [hIsEnd.after]
        rcases Kind.endsText_cases hIsEnd.kind with
          hKind | hKind | hKind | hKind <;>
        simp [argumentAhead, hKind, Kind.startsArgument,
          Kind.isNumberPart]
  | cons l ls =>
      by_cases hNot : l.kind = .operator .notWord
      · have hNext := hSees.advance_one hRest (by
          rw [hNot]
          rfl)
        have hSame := hNext.any_head?_append
          (·.kind == .operator .inWord) (by
            intro m hKind
            rcases Kind.endsText_cases hKind with
              hKind | hKind | hKind | hKind <;> simp [hKind])
        rw [(ParseState.take_one hRest).2] at hSame
        simp only [List.cons_append, argumentAhead, hNot,
          if_true, hSame]
      · simp only [List.cons_append, argumentAhead, hNot,
          if_false]

------------------------------------------------------------
-- Operators
------------------------------------------------------------

/- Operators are plain, so both runs see what follows them. -/
theorem Sees.at?_append
    (newline : Bool)
    {l : Lexeme}
    {ls : List Lexeme}
    (hSees : h.Sees inside s)
    (hRest : s.rest = l :: ls) :
    InfixOperator.at? newline l (ls ++ h.after) =
      InfixOperator.at? newline l ls := by
  -- Only two operators look at a second lexeme.
  have hPair :
      ∀ f : List Lexeme → Option InfixOperator,
        l.kind.isPlain = true →
          (∀ m ms ks, f (m :: ms) = f (m :: ks)) →
            (∀ m ms, m.kind.endsText = true →
              f (m :: ms) = f []) →
              f (ls ++ h.after) = f ls := by
    intro f hPlain hHead hEnds
    have hNext := hSees.advance_one hRest hPlain
    have hSame := hNext.append_of_head hHead hEnds
    rw [(ParseState.take_one hRest).2] at hSame
    exact hSame
  unfold InfixOperator.at?
  split
  · rename_i hKind
    apply hPair (InfixOperator.notIn? l)
    · rw [hKind]
      rfl
    · exact fun _ _ _ => rfl
    · intro m ms hEnds
      rcases Kind.endsText_cases hEnds with
        hKind | hKind | hKind | hKind <;>
      simp [InfixOperator.notIn?, hKind]
  · rename_i hKind
    apply hPair (InfixOperator.slash? l)
    · rw [hKind]
      rfl
    · exact fun _ _ _ => rfl
    · intro m ms hEnds
      rcases Kind.endsText_cases hEnds with
        hKind | hKind | hKind | hKind <;>
      simp [InfixOperator.slash?, hKind]
  · rfl
  · rfl
  · rfl

/- What closes a delimiter or separates statements is no operator. -/
theorem at?_of_isBarrier
    {l : Lexeme}
    (newline : Bool)
    (ls : List Lexeme)
    (hBarrier : l.kind.isBarrier = true) :
    InfixOperator.at? newline l ls = none := by
  unfold InfixOperator.at?
  split
  · rename_i hKind
    rw [hKind] at hBarrier
    cases hBarrier
  · rename_i hKind
    rw [hKind] at hBarrier
    cases hBarrier
  · rename_i hKind
    rw [hKind] at hBarrier
    cases hBarrier
  · rename_i hKind
    rw [hKind] at hBarrier
    cases hBarrier
  · have hNone : l.kind.binding? = none := by
      cases hKind : l.kind <;> rw [hKind] at hBarrier <;>
        first | rfl | cases hBarrier
    rw [InfixOperator.single?, hNone]
    rfl

/- Behind newlines before a barrier comes the barrier. -/
theorem drop_runLength_of_isBarrier
    {l : Lexeme}
    {lines : List Lexeme}
    (after : List Lexeme)
    (hLines : ∀ m ∈ lines, isLineEnd m.kind = true)
    (hBarrier : l.kind.isBarrier = true) :
    (lines ++ l :: after).drop
        (runLength isLineEnd (lines ++ l :: after)) =
      l :: after := by
  have hStop : isLineEnd l.kind = false := by
    cases hKind : l.kind <;> rw [hKind] at hBarrier <;>
      first | rfl | cases hBarrier
  have hLength :
      runLength isLineEnd (lines ++ l :: after) =
        lines.length := by
    rw [runLength, List.takeWhile_append_of_pos hLines,
      List.takeWhile_cons, hStop]
    simp
  rw [hLength, List.drop_left]

/- What ends a text behind newlines is a barrier. -/
theorem Ends.exists_behind_lines
    {l : Lexeme}
    {ls lines : List Lexeme}
    (hEnds : h.Ends l ls)
    (hLines : ∀ m ∈ lines, isLineEnd m.kind = true) :
    ∃ m ms,
      (lines ++ h.after).drop
          (runLength isLineEnd (lines ++ h.after)) = m :: ms ∧
        m.kind.isBarrier = true := by
  rw [hEnds.after]
  by_cases hLine : l.kind = .endOfLine
  · rcases hEnds.newline hLine with ⟨m, ms, rfl, hBarrier⟩
    have hLines' : ∀ k ∈ lines ++ [l], isLineEnd k.kind = true := by
      intro k hMem
      rcases List.mem_append.mp hMem with hFront | hLast
      · exact hLines k hFront
      · rw [List.mem_singleton.mp hLast, hLine]
        rfl
    have hDrop := drop_runLength_of_isBarrier ms hLines' hBarrier
    rw [List.append_assoc] at hDrop
    exact ⟨m, ms, hDrop, hBarrier⟩
  · have hBarrier : l.kind.isBarrier = true := by
      rcases Kind.endsText_cases hEnds.kind with
        hKind | hKind | hKind | hKind
      · rw [hKind]
        rfl
      · exact absurd hKind hLine
      · rw [hKind]
        rfl
      · rw [hKind]
        rfl
    exact ⟨l, ls, drop_runLength_of_isBarrier ls hLines hBarrier,
      hBarrier⟩

/- Where nothing is left behind the newlines, they are all. -/
theorem isLineEnd_of_drop_eq_nil
    {ls : List Lexeme}
    (hNil : ls.drop (runLength isLineEnd ls) = []) :
    ∀ l ∈ ls, isLineEnd l.kind = true := by
  intro l hMem
  have hLength := runLength_le_length isLineEnd ls
  have hDrop := List.drop_eq_nil_iff.mp hNil
  have hAll : ls.take (runLength isLineEnd ls) = ls :=
    List.take_of_length_le hDrop
  rw [← hAll] at hMem
  exact of_mem_take_runLength hMem

theorem Sees.infixAhead?_append
    (hSees : h.Sees inside s) :
    infixAhead? (s.rest ++ h.after) = infixAhead? s.rest := by
  have hNext := hSees.skipLineEnds
  have hRest :
      (Parse.skipLineEnds s).2.rest =
        s.rest.drop (runLength isLineEnd s.rest) := rfl
  cases hHead : (Parse.skipLineEnds s).2.rest with
  | nil =>
      have hLeft : infixAhead? s.rest = none := by
        rw [hRest] at hHead
        simp only [infixAhead?, hHead]
      rcases hNext.after_cases hHead with
        hAfter | ⟨l, ls, hEnds⟩
      · rw [hAfter, List.append_nil]
      · rcases hEnds.exists_behind_lines
            (isLineEnd_of_drop_eq_nil (hRest ▸ hHead)) with
          ⟨m, ms, hDrop, hBarrier⟩
        rw [hLeft]
        simp only [infixAhead?, hDrop, at?_of_isBarrier _ _ hBarrier,
          Option.map_none]
  | cons l ls =>
      have hMore : s.rest.drop (runLength isLineEnd s.rest) ≠ [] := by
        rw [← hRest, hHead]
        simp
      have hDrop :
          (s.rest ++ h.after).drop (runLength isLineEnd s.rest) =
            (Parse.skipLineEnds s).2.rest ++ h.after := by
        rw [hRest, List.drop_append_of_le_length
          (runLength_le_length _ _)]
      simp only [infixAhead?,
        Setting.runLength_isLineEnd_append h.after hMore, hDrop]
      rw [← hRest, hHead]
      simp only [List.cons_append]
      rw [hNext.at?_append _ hHead]

------------------------------------------------------------
-- Heads in parentheses
------------------------------------------------------------

/- Lexemes that leave a delimiter open are passed over. -/
theorem headAhead_append
    {ds es : Nest}
    {ls : List Lexeme}
    (rest : List Lexeme)
    (hBehind : ds.behind? ls = some es) :
    headAhead (ds.length + 1) (ls ++ rest) =
      headAhead (es.length + 1) rest := by
  induction ls generalizing ds with
  | nil =>
      cases hBehind
      rfl
  | cons l ls ih =>
      rcases Nest.exists_of_behind?_cons hBehind with
        ⟨fs, hNext, hRest⟩
      rw [List.cons_append, headAhead, Kind.opens_eq,
        Kind.closes_eq, ← ih hRest]
      cases Nest.step_of_next? hNext with
      | opens d _ hOpener => simp [hOpener]
      | closes d fs hCloser =>
          have hOpener : l.kind.opener? = none := by
            cases hOpener : l.kind.opener? with
            | none => rfl
            | some e =>
                rw [Kind.closer?_of_opener? hOpener] at hCloser
                cases hCloser
          simp [hOpener, hCloser]
      | keeps _ hFlat =>
          simp [Kind.isFlat] at hFlat
          simp [hFlat]
      | startsText f _ hKind =>
          simp [hKind, Kind.opener?, Kind.closer?]

/- Parentheses that are closed are a clause's head in both runs. -/
theorem Sees.parenthesizedHeadAhead_append
    {l : Lexeme}
    {ls : List Lexeme}
    (hSees : h.Sees inside s)
    (hRest : s.rest = l :: ls)
    (hKind : l.kind = .opening .parenthesis) :
    parenthesizedHeadAhead (s.rest ++ h.after) =
      parenthesizedHeadAhead s.rest := by
  rcases hSees with hWhole | ⟨ds, after, hFits, _⟩
  · rw [hWhole.1, List.append_nil]
  · have hOpener : l.kind.opener? =
        some (.bracket .parenthesis) := by
      rw [hKind]
      rfl
    have hFits' := hFits.opens hRest hOpener
    rcases hFits'.within with ⟨ms, hMs, hBehind⟩
    rcases Nest.exists_closer rfl hBehind with
      ⟨inner, c, outer, rfl, hInner, hCloser, hOuter⟩
    rw [(ParseState.take_one hRest).2] at hMs
    have hScan :
        ∀ rest, parenthesizedHeadAhead
          (l :: (inner ++ c :: rest)) = arrowAhead rest := by
      intro rest
      have hPast := headAhead_append (c :: rest) hInner
      have hCloses : c.kind.opener? = none := by
        cases hOpener' : c.kind.opener? with
        | none => rfl
        | some e =>
            rw [Kind.closer?_of_opener? hOpener'] at hCloser
            cases hCloser
      change headAhead 0 (l :: (inner ++ c :: rest)) = _
      rw [headAhead, Kind.opens_eq, hOpener]
      simp only [Option.isSome_some, if_true]
      rw [show 0 + 1 = ([] : Nest).length + 1 from rfl, hPast,
        headAhead, Kind.opens_eq, Kind.closes_eq, hCloses,
        hCloser]
      simp
    have hTail : s.rest = l :: (inner ++ c :: (outer ++ after)) := by
      rw [hRest, hMs]
      simp
    rw [hTail, hScan]
    have hLonger :
        (l :: (inner ++ c :: (outer ++ after))) ++ h.after =
          l :: (inner ++ c :: (outer ++ after ++ h.after)) := by
      simp
    rw [hLonger, hScan]
    -- What ends the text is no arrow behind the parentheses.
    cases hHead : outer ++ after with
    | cons m ms => rfl
    | nil =>
        have hNil := (List.append_eq_nil_iff.mp hHead).2
        subst hNil
        cases hFits.bounds with
        | ends m ms hEnds _ =>
            rw [hEnds.after]
            rcases Kind.endsText_cases hEnds.kind with
              hKind | hKind | hKind | hKind <;>
            simp [arrowAhead, hKind]

end Setting

------------------------------------------------------------
-- Quoted keys
------------------------------------------------------------

/-
  What is open above a literal: nothing, or an interpolation
  and what stands in it.
-/
def AboveLiteral
    (es : Nest) : Prop :=
  es = [] ∨ es.getLast? = some .interpolation

theorem AboveLiteral.count_pos
    {d : Delimiter}
    {es : Nest}
    (hAbove : AboveLiteral (d :: es))
    (hOther : d ≠ .interpolation) :
    AboveLiteral es ∧ es.count .interpolation ≠ 0 := by
  cases es with
  | nil =>
      rcases hAbove with hNil | hLast
      · cases hNil
      · cases hLast
        exact absurd rfl hOther
  | cons e es =>
      rcases hAbove with hNil | hLast
      · cases hNil
      · rw [List.getLast?_cons_cons] at hLast
        refine ⟨.inr hLast, ?_⟩
        have hMem := List.mem_of_getLast? hLast
        have hPos := List.count_pos_iff.mpr hMem
        omega

theorem AboveLiteral.cons
    {d : Delimiter}
    {es : Nest}
    (hAbove : AboveLiteral es)
    (hOpen : es ≠ []) :
    AboveLiteral (d :: es) := by
  rcases hAbove with hNil | hLast
  · exact absurd hNil hOpen
  · cases es with
    | nil => cases hLast
    | cons e es => exact .inr hLast

theorem quotedKeyAhead_of_opener?
    {l : Lexeme}
    {d : Delimiter}
    (k : Nat)
    (ls : List Lexeme)
    (hOpener : l.kind.opener? = some d) :
    quotedKeyAhead k (l :: ls) =
      quotedKeyAhead
        (if d = .interpolation then k + 1 else k) ls := by
  cases hKind : l.kind with
  | opening b => rw [hKind] at hOpener; cases hOpener; simp [quotedKeyAhead, hKind]
  | word w =>
      rw [hKind] at hOpener
      cases w <;> cases hOpener <;> simp [quotedKeyAhead, hKind]
  | interpolationStart =>
      rw [hKind] at hOpener
      cases hOpener
      simp [quotedKeyAhead, hKind]
  | promoter f layout =>
      rw [hKind] at hOpener
      cases layout <;> cases hOpener <;>
        simp [quotedKeyAhead, hKind]
  | _ => rw [hKind] at hOpener; cases hOpener

theorem quotedKeyAhead_of_closer?
    {l : Lexeme}
    {d : Delimiter}
    {k : Nat}
    (ls : List Lexeme)
    (hCloser : l.kind.closer? = some d)
    (hDepth : d ≠ .interpolation → k ≠ 0) :
    quotedKeyAhead k (l :: ls) =
      quotedKeyAhead
        (if d = .interpolation then k - 1 else k) ls := by
  cases hKind : l.kind with
  | closing b =>
      rw [hKind] at hCloser
      cases hCloser
      simp [quotedKeyAhead, hKind]
  | word w =>
      rw [hKind] at hCloser
      cases w <;> cases hCloser
      simp [quotedKeyAhead, hKind]
  | interpolationEnd =>
      rw [hKind] at hCloser
      cases hCloser
      simp [quotedKeyAhead, hKind]
  | terminator f layout =>
      rw [hKind] at hCloser
      cases hCloser
      have hPos : k ≠ 0 := hDepth (by simp)
      cases f <;> cases layout <;>
        simp [quotedKeyAhead, hKind, hPos]
  | _ => rw [hKind] at hCloser; cases hCloser

theorem quotedKeyAhead_of_isFlat
    {l : Lexeme}
    (k : Nat)
    (ls : List Lexeme)
    (hFlat : l.kind.isFlat = true) :
    quotedKeyAhead k (l :: ls) = quotedKeyAhead k ls := by
  cases hKind : l.kind with
  | interpolationStart => rw [hKind] at hFlat; cases hFlat
  | interpolationEnd => rw [hKind] at hFlat; cases hFlat
  | terminator f layout => rw [hKind] at hFlat; cases hFlat
  | _ => simp [quotedKeyAhead, hKind]

theorem isFlat_of_plainSegment?
    {l : Lexeme}
    {segment : Segment Node}
    (hPlain : plainSegment? l = some segment) :
    l.kind.isFlat = true := by
  cases hKind : l.kind <;>
    first | rfl | simp [plainSegment?, hKind] at hPlain

/- One lexeme above a literal changes the depth as it is scanned. -/
theorem quotedKeyAhead_of_step
    {d : Delimiter}
    {es gs : Nest}
    {l : Lexeme}
    (hAbove : AboveLiteral (d :: es))
    (hStep : Nest.Step l.kind (d :: es) gs) :
    AboveLiteral gs ∧
      ∀ ls, quotedKeyAhead ((d :: es).count .interpolation)
          (l :: ls) =
        quotedKeyAhead (gs.count .interpolation) ls := by
  cases hStep with
  | opens e _ hOpener =>
      refine ⟨hAbove.cons (List.cons_ne_nil d es), ?_⟩
      intro ls
      rw [quotedKeyAhead_of_opener? _ ls hOpener,
        List.count_cons (b := e)]
      by_cases hEq : e = .interpolation <;> simp [hEq]
  | closes _ _ hCloser =>
      by_cases hEq : d = .interpolation
      · subst hEq
        constructor
        · cases es with
          | nil => exact .inl rfl
          | cons e es =>
              rcases hAbove with hNil | hLast
              · cases hNil
              · exact .inr hLast
        · intro ls
          rw [quotedKeyAhead_of_closer? ls hCloser
            (fun hNe => absurd rfl hNe)]
          simp
      · rcases hAbove.count_pos hEq with ⟨hAbove', hPos⟩
        refine ⟨hAbove', ?_⟩
        intro ls
        rw [List.count_cons_of_ne hEq,
          quotedKeyAhead_of_closer? ls hCloser (fun _ => hPos),
          if_neg hEq]
  | keeps _ hFlat =>
      exact ⟨hAbove,
        fun ls => quotedKeyAhead_of_isFlat _ ls hFlat⟩
  | startsText f _ hKind =>
      have hBelow := hAbove.count_pos (by simp)
      constructor
      · apply hBelow.1.cons
        rintro rfl
        exact hBelow.2 rfl
      · intro ls
        rw [quotedKeyAhead_of_isFlat _ ls (by rw [hKind]; rfl)]
        simp

/-
  Lexemes that end a literal between two quotes, with a nest
  open above it: some that leave it open, and a terminator
  that stands in none of its interpolations.
-/
structure Terminated
    (f : Family)
    (ds es : Nest)
    (inner : List Lexeme)
    (t : Lexeme) : Prop where
  kind : t.kind = .terminator f .quoted
  remains : ∀ front back, inner = front ++ back →
    ∃ gs, Nest.behind? (es ++ .literal f .quoted :: ds) front =
      some (gs ++ .literal f .quoted :: ds)
  scan : ∀ rest,
    quotedKeyAhead (es.count .interpolation)
      (inner ++ t :: rest) = keyColonAhead rest

/- A lexeme in front that does not end the literal. -/
theorem Terminated.cons
    {f : Family}
    {ds es gs : Nest}
    {l t : Lexeme}
    {inner : List Lexeme}
    (hEnds : Terminated f ds gs inner t)
    (hNext : Nest.next? (es ++ .literal f .quoted :: ds) l.kind =
      some (gs ++ .literal f .quoted :: ds))
    (hScan : ∀ ms,
      quotedKeyAhead (es.count .interpolation) (l :: ms) =
        quotedKeyAhead (gs.count .interpolation) ms) :
    Terminated f ds es (l :: inner) t := by
  refine ⟨hEnds.kind, ?_, ?_⟩
  · intro front back hSplit
    cases front with
    | nil => exact ⟨es, rfl⟩
    | cons m front =>
        rcases List.cons.inj hSplit with ⟨rfl, hSplit'⟩
        rcases hEnds.remains front back hSplit' with ⟨ks, hKs⟩
        refine ⟨ks, ?_⟩
        rw [Nest.behind?_cons, hNext]
        exact hKs
  · intro rest
    rw [List.cons_append, hScan]
    exact hEnds.scan rest

/- In a balanced stretch a literal is ended. -/
theorem exists_terminated
    {f : Family}
    {ds es : Nest}
    {ls : List Lexeme}
    (hFamily : f ≠ .sigil)
    (hAbove : AboveLiteral es)
    (hBehind : Nest.behind? (es ++ .literal f .quoted :: ds) ls =
      some []) :
    ∃ inner t outer,
      ls = inner ++ t :: outer ∧
        ds.behind? outer = some [] ∧
        Terminated f ds es inner t := by
  induction ls generalizing es with
  | nil => simp at hBehind
  | cons l ls ih =>
      rcases Nest.exists_of_behind?_cons hBehind with
        ⟨fs, hNext, hRest⟩
      -- A lexeme that does not end the literal.
      have hInner :
          ∀ gs, fs = gs ++ .literal f .quoted :: ds →
            AboveLiteral gs →
            (∀ ms,
              quotedKeyAhead (es.count .interpolation)
                  (l :: ms) =
                quotedKeyAhead (gs.count .interpolation) ms) →
            ∃ inner t outer,
              l :: ls = inner ++ t :: outer ∧
                ds.behind? outer = some [] ∧
                Terminated f ds es inner t := by
        intro gs hEq hAbove' hScan
        subst hEq
        rcases ih hAbove' hRest with
          ⟨inner, t, outer, rfl, hOuter, hEnds⟩
        exact ⟨l :: inner, t, outer, rfl, hOuter,
          hEnds.cons hNext hScan⟩
      cases es with
      | cons e es =>
          rw [Nest.next?_append _ _ (List.cons_ne_nil e es)]
            at hNext
          rcases Option.map_eq_some_iff.mp hNext with
            ⟨gs, hNext', hEq⟩
          rcases quotedKeyAhead_of_step hAbove
            (Nest.step_of_next? hNext') with ⟨hAbove', hScan⟩
          exact hInner gs hEq.symm hAbove' hScan
      | nil =>
          cases segmentCase l with
          | plain segment hPlain hKind _ =>
              have hSame := (hKind f .quoted ds).symm.trans hNext
              apply hInner [] (Option.some.inj hSame).symm hAbove
              intro ms
              apply quotedKeyAhead_of_isFlat
              exact isFlat_of_plainSegment? hPlain
          | interpolation _ hKind =>
              have hOpener :
                  l.kind.opener? = some .interpolation := by
                rw [hKind]
                rfl
              have hEq := Nest.next?_of_opener? hOpener hNext
              apply hInner [.interpolation] hEq (.inr rfl)
              exact fun ms => quotedKeyAhead_of_opener? 0 ms hOpener
          | terminator f' layout _ hKind =>
              have hCloser :
                  l.kind.closer? = some (.literal f' layout) := by
                rw [hKind]
                rfl
              have hSame := Nest.next?_of_closer? hCloser hNext
              cases hSame
              refine ⟨[], l, ls, rfl, hRest, hKind, ?_, ?_⟩
              · intro front back hSplit
                cases front with
                | nil => exact ⟨[], rfl⟩
                | cons m front => cases hSplit
              · intro rest
                cases f with
                | sigil => exact absurd rfl hFamily
                | string => simp [quotedKeyAhead, hKind]
                | charlist => simp [quotedKeyAhead, hKind]
          | other _ _ _ hKind =>
              have hSame := (hKind f .quoted ds).symm.trans hNext
              cases hSame

/-
  A quoted key whose colon is the last lexeme of all, so that
  there is no value.
-/
inductive EndsInKey
    (s : ParseState) : Prop where
| intro
    (f : Family)
    (l t colon : Lexeme)
    (inner : List Lexeme)
    (hRest : s.rest = l :: (inner ++ [t, colon]))
    (hKind : l.kind = .promoter f .quoted)
    (hEnds : Terminated f [] [] inner t)
    (hBalanced : Nest.behind? [] s.rest = some [])
    (hAhead : keywordAhead s.rest = true)

theorem keywordAhead_of_promoter
    {l : Lexeme}
    {f : Family}
    (ls : List Lexeme)
    (hKind : l.kind = .promoter f .quoted)
    (hFamily : f ≠ .sigil) :
    keywordAhead (l :: ls) = quotedKeyAhead 0 ls := by
  cases f with
  | sigil => exact absurd rfl hFamily
  | string => simp [keywordAhead, hKind]
  | charlist => simp [keywordAhead, hKind]

/- The colon of a key is seen, unless nothing is behind it. -/
theorem keyColonAhead_append
    {ls ms : List Lexeme}
    (hLast : ∀ l, ls = [l] → keyColonAhead [l] = false)
    (hNil : ls = [] → keyColonAhead ms = false) :
    keyColonAhead (ls ++ ms) = keyColonAhead ls := by
  cases ls with
  | nil => exact hNil rfl
  | cons l ls =>
      cases ls with
      | cons m ls => rfl
      | nil =>
          have hNot := hLast l rfl
          simp only [keyColonAhead, List.head?_nil,
            Option.all_none, Bool.and_true] at hNot
          simp [keyColonAhead, hNot]

theorem isFlat_of_keyColonAhead
    {l : Lexeme}
    {ls : List Lexeme}
    (hAhead : keyColonAhead (l :: ls) = true) :
    l.kind.isFlat = true ∧ l.kind.isBarrier = false := by
  have hKind : l.kind = .colon := by
    simp [keyColonAhead] at hAhead
    exact hAhead.1.1
  rw [hKind]
  exact ⟨rfl, rfl⟩

/-
  A literal that is ended, with a colon as the last lexeme of
  the smaller text, is a key that nothing is behind.
-/
theorem Setting.Fits.endsInKey
    {ds : Nest}
    {f : Family}
    {l t colon : Lexeme}
    {inner outer after : List Lexeme}
    (hFits : h.Fits inside ds after s)
    (hIsCode : ds.isCode = true)
    (hRest : s.rest = l :: (inner ++ t :: (outer ++ after)))
    (hKind : l.kind = .promoter f .quoted)
    (hFamily : f ≠ .sigil)
    (hOuter : ds.behind? outer = some [])
    (hEnds : Terminated f ds [] inner t)
    (hLast : outer ++ after = [colon])
    (hAhead : keyColonAhead [colon] = true) :
    inside = false ∧ EndsInKey s := by
  rcases isFlat_of_keyColonAhead hAhead with ⟨hFlat, hBarrier⟩
  have hAfter : after = [] := by
    cases hFits.bounds with
    | ends _ _ _ _ => rfl
    | closer m ms hBarrier' _ =>
        cases outer with
        | nil =>
            cases hLast
            rw [hBarrier] at hBarrier'
            cases hBarrier'
        | cons k outer => simp at hLast
  subst hAfter
  rw [List.append_nil] at hLast
  subst hLast
  have hNil : [] = ds := by
    apply Nest.behind?_of_isFlat _ hIsCode hOuter
    intro m hMem
    rw [List.mem_singleton] at hMem
    rw [hMem]
    exact hFlat
  subst hNil
  constructor
  · cases hInside : inside with
    | false => rfl
    | true =>
        cases hFits.bounds with
        | ends _ _ _ hOpen =>
            exact absurd rfl (hOpen hInside)
  · rcases hFits.within with ⟨all, hAll, hBalanced⟩
    rw [List.append_nil] at hAll
    refine .intro f l t colon inner hRest hKind hEnds ?_ ?_
    · rw [hAll]
      exact hBalanced
    · rw [hRest, keywordAhead_of_promoter _ hKind hFamily]
      have hScan := hEnds.scan [colon]
      change quotedKeyAhead 0 _ = _ at hScan
      exact hScan.trans hAhead

/-
  A quoted key is seen in both runs, unless its colon is the
  last lexeme of the smaller text.
-/
theorem Setting.Clean.quotedKeyAhead_append
    {f : Family}
    {l : Lexeme}
    {ls : List Lexeme}
    (hClean : h.Clean inside s)
    (hRest : s.rest = l :: ls)
    (hKind : l.kind = .promoter f .quoted)
    (hFamily : f ≠ .sigil) :
    quotedKeyAhead 0 (ls ++ h.after) = quotedKeyAhead 0 ls ∨
      (inside = false ∧ EndsInKey s) := by
  rcases hClean with ⟨ds, after, hFits, hIsCode⟩
  have hOpener : l.kind.opener? = some (.literal f .quoted) := by
    rw [hKind]
    rfl
  rcases (hFits.opens hRest hOpener).within with
    ⟨ms, hMs, hBehind⟩
  rw [(ParseState.take_one hRest).2] at hMs
  have hAbove : AboveLiteral [] := .inl rfl
  rcases exists_terminated hFamily hAbove hBehind
    with ⟨inner, t, outer, rfl, hOuter, hEnds⟩
  have hScan : ∀ rest, quotedKeyAhead 0 (inner ++ t :: rest) =
      keyColonAhead rest := by
    intro rest
    rw [← hEnds.scan rest]
    rfl
  have hLs : ls = inner ++ t :: (outer ++ after) := by
    rw [hMs]
    simp
  have hLonger : ls ++ h.after =
      inner ++ t :: (outer ++ after ++ h.after) := by
    rw [hLs]
    simp
  rw [hLonger, hLs, hScan, hScan]
  by_cases hLast :
      ∃ colon, outer ++ after = [colon] ∧
        keyColonAhead [colon] = true
  · right
    rcases hLast with ⟨colon, hEq, hAhead⟩
    rw [hLs] at hRest
    exact hFits.endsInKey hIsCode hRest hKind hFamily hOuter
      hEnds hEq hAhead
  · left
    apply keyColonAhead_append
    · intro colon hEq
      cases hAhead : keyColonAhead [colon] with
      | false => rfl
      | true => exact absurd ⟨colon, hEq, hAhead⟩ hLast
    · intro hNil
      have hAfter := (List.append_eq_nil_iff.mp hNil).2
      subst hAfter
      cases hFits.bounds with
      | ends m ms hEnds _ =>
          rw [hEnds.after]
          rcases Kind.endsText_cases hEnds.kind with
            hKind | hKind | hKind | hKind <;>
          simp [keyColonAhead, hKind]

theorem Setting.Sees.keywordAhead_append
    (hSees : h.Sees inside s) :
    keywordAhead (s.rest ++ h.after) = keywordAhead s.rest ∨
      (inside = false ∧ h.Clean inside s ∧ EndsInKey s) := by
  cases hRest : s.rest with
  | nil =>
      left
      rcases hSees.after_cases hRest with
        hAfter | ⟨l, ls, hIsEnd⟩
      · rw [hAfter]
        rfl
      · rw [hIsEnd.after]
        rcases Kind.endsText_cases hIsEnd.kind with
          hKind | hKind | hKind | hKind <;>
        simp [keywordAhead, hKind]
  | cons l ls =>
      by_cases hQuoted :
          ∃ f, l.kind = .promoter f .quoted ∧ f ≠ .sigil
      · rcases hQuoted with ⟨f, hKind, hFamily⟩
        rw [List.cons_append,
          keywordAhead_of_promoter _ hKind hFamily,
          keywordAhead_of_promoter _ hKind hFamily]
        rcases hSees with hWhole | hClean
        · left
          rw [hWhole.1, List.append_nil]
        · rcases hClean.quotedKeyAhead_append hRest hKind
            hFamily with hSame | ⟨hInside, hEnds⟩
          · exact .inl hSame
          · exact .inr ⟨hInside, hClean, hEnds⟩
      · left
        rw [List.cons_append]
        simp only [keywordAhead]
        split
        · rfl
        · rename_i hKind
          exact absurd ⟨_, hKind, by simp⟩ hQuoted
        · rename_i hKind
          exact absurd ⟨_, hKind, by simp⟩ hQuoted
        · rfl

/- Inside of delimiters a quoted key is always seen. -/
theorem Setting.Sees.keywordAhead_append_of_inside
    (hSees : h.Sees true s) :
    keywordAhead (s.rest ++ h.after) = keywordAhead s.rest := by
  rcases hSees.keywordAhead_append with hSame | ⟨hInside, _⟩
  · exact hSame
  · cases hInside

theorem EndsInKey.congr
    (hEnds : EndsInKey s)
    (hRest : s'.rest = s.rest) :
    EndsInKey s' := by
  rcases hEnds with
    ⟨f, l, t, colon, inner, hEq, hKind, hT, hNil, hAhead⟩
  rw [← hRest] at hEq hNil hAhead
  exact .intro f l t colon inner hEq hKind hT hNil hAhead

theorem EndsInKey.keywordAhead
    (hEnds : EndsInKey s) :
    ElixirReader.keywordAhead s.rest = true := by
  cases hEnds with
  | intro f l t colon inner _ _ _ _ hAhead => exact hAhead

/- Where a key without a value is seen, the first run fails. -/
theorem Run.keywordAhead
    {α : Type}
    {p p' q q' : Parse α}
    (hThen : ElixirReader.keywordAhead s.rest = true →
      Run h n inside p q s)
    (hElse : ElixirReader.keywordAhead s.rest = false →
      Run h n inside p' q' s)
    (hFails : inside = false → h.Clean inside s →
      EndsInKey s → Fails p s) :
    Run h n inside
      (rest >>= fun ls =>
        if ElixirReader.keywordAhead ls then p else p')
      (rest >>= fun ls =>
        if ElixirReader.keywordAhead ls then q else q') s := by
  apply Run.bind_rest
  have hSame :
      h.Sees inside s →
        ElixirReader.keywordAhead (s.rest ++ h.after) =
            ElixirReader.keywordAhead s.rest ∨
          (h.Clean inside s ∧ EndsInKey s ∧ Fails p s) := by
    intro hSees
    rcases hSees.keywordAhead_append with
      hSame | ⟨hInside, hClean, hEnds⟩
    · exact .inl hSame
    · exact .inr ⟨hClean, hEnds, hFails hInside hClean hEnds⟩
  cases hAhead : ElixirReader.keywordAhead s.rest with
  | false =>
      apply Run.of_eq (hElse hAhead)
      intro hSees
      rcases hSame hSees with hEq | ⟨_, hEnds, _⟩
      · rw [hEq, hAhead]
        rfl
      · rw [hEnds.keywordAhead] at hAhead
        cases hAhead
  | true =>
      apply Run.of_eq_or_fails (hThen hAhead)
      · intro hWhole
        rw [hWhole.1, List.append_nil, hAhead]
        rfl
      · intro hClean
        rcases hSame (.inr hClean) with hEq | ⟨_, _, hFails'⟩
        · left
          rw [hEq, hAhead]
          rfl
        · exact .inr hFails'

------------------------------------------------------------
-- Runs of pairs
------------------------------------------------------------

/- A comma in front of a pair, and newlines, are plain. -/
theorem take_of_pairSeparator?
    {m : Nat}
    {ls : List Lexeme}
    (hSeparator : pairSeparator? ls = some m) :
    (∀ l ∈ ls.take m, l.kind.isPlain = true) ∧
      0 < m ∧ m ≤ ls.length ∧
      ElixirReader.keywordAhead (ls.drop m) = true := by
  cases ls with
  | nil => cases hSeparator
  | cons l ls =>
      simp only [pairSeparator?] at hSeparator
      split at hSeparator
      · rename_i hAhead
        cases hSeparator
        refine ⟨?_, Nat.succ_pos _, ?_, hAhead.2⟩
        · intro m hMem
          rw [List.take_succ_cons] at hMem
          rcases List.mem_cons.mp hMem with rfl | hTail
          · rw [hAhead.1]
            rfl
          · exact isPlain_of_isLineEnd
              (of_mem_take_runLength hTail)
        · rw [List.length_cons]
          exact Nat.succ_le_succ
            (runLength_le_length isLineEnd ls)
      · cases hSeparator

theorem keywordAhead_of_isBarrier
    {l : Lexeme}
    (ls : List Lexeme)
    (hBarrier : l.kind.isBarrier = true) :
    ElixirReader.keywordAhead (l :: ls) = false := by
  cases hKind : l.kind <;> rw [hKind] at hBarrier <;>
    first
    | cases hBarrier; done
    | simp [ElixirReader.keywordAhead, hKind]

/- Behind a comma and newlines at the end there is no pair. -/
theorem Setting.Sees.keywordAhead_behind_lines
    (hSees : h.Sees inside s)
    (hLines : ∀ l ∈ s.rest, isLineEnd l.kind = true) :
    ElixirReader.keywordAhead ((s.rest ++ h.after).drop
        (runLength isLineEnd (s.rest ++ h.after))) =
      ElixirReader.keywordAhead
        (s.rest.drop (runLength isLineEnd s.rest)) := by
  have hSkip : (Parse.skipLineEnds s).2.rest = [] := by
    change s.rest.drop (s.rest.takeWhile _).length = []
    have hAll :
        (s.rest ++ []).takeWhile (fun l => isLineEnd l.kind) =
          s.rest ++ [].takeWhile (fun l => isLineEnd l.kind) :=
      List.takeWhile_append_of_pos hLines
    simp only [List.append_nil, List.takeWhile_nil] at hAll
    rw [hAll, List.drop_length]
  rcases hSees.skipLineEnds.after_cases hSkip with
    hAfter | ⟨l, ls, hEnds⟩
  · rw [hAfter, List.append_nil]
  · rcases hEnds.exists_behind_lines hLines with
      ⟨m, ms, hDrop, hBarrier⟩
    change s.rest.drop (runLength isLineEnd s.rest) = [] at hSkip
    rw [hDrop, hSkip, keywordAhead_of_isBarrier ms hBarrier]
    rfl

theorem Setting.Sees.pairSeparator?_append
    (hSees : h.Sees inside s) :
    pairSeparator? (s.rest ++ h.after) =
        pairSeparator? s.rest ∨
      ∃ m, pairSeparator? s.rest = some m ∧
        inside = false ∧ EndsInKey (s.advance m) := by
  cases hRest : s.rest with
  | nil =>
      left
      rcases hSees.after_cases hRest with
        hAfter | ⟨l, ls, hIsEnd⟩
      · rw [hAfter]
        rfl
      · rw [hIsEnd.after]
        rcases Kind.endsText_cases hIsEnd.kind with
          hKind | hKind | hKind | hKind <;>
        simp [pairSeparator?, hKind]
  | cons l ls =>
      by_cases hComma : l.kind = .comma
      · have hFirst := hSees.advance_one hRest
          (by rw [hComma]; rfl)
        have hNext := hFirst.skipLineEnds
        have hTail := (ParseState.take_one hRest).2
        have hDrop :
            (Parse.skipLineEnds (s.advance 1)).2.rest =
              ls.drop (runLength isLineEnd ls) := by
          change (s.advance 1).rest.drop
            (runLength isLineEnd (s.advance 1).rest) = _
          rw [hTail]
        by_cases hNil : ls.drop (runLength isLineEnd ls) = []
        · have hLines := isLineEnd_of_drop_eq_nil hNil
          rw [← hTail] at hLines
          have hSame := hFirst.keywordAhead_behind_lines hLines
          rw [hTail, hNil] at hSame
          left
          have hNone : ElixirReader.keywordAhead [] = false := rfl
          simp [pairSeparator?, hSame, hNil, hNone]
        · have hLength :=
            Setting.runLength_isLineEnd_append h.after hNil
          have hAhead := hNext.keywordAhead_append
          rw [hDrop, ← List.drop_append_of_le_length
            (runLength_le_length isLineEnd ls)] at hAhead
          simp only [List.cons_append, pairSeparator?, hLength]
          rcases hAhead with hSame | ⟨hInside, _, hEnds⟩
          · left
            rw [hSame]
          · right
            refine ⟨runLength isLineEnd ls + 1, ?_, hInside, ?_⟩
            · have hTrue := hEnds.keywordAhead
              rw [hDrop] at hTrue
              simp [hComma, hTrue]
            · apply hEnds.congr
              rw [hDrop]
              simp [ParseState.advance, hRest]
      · left
        simp [pairSeparator?, hComma]

end ElixirReader
