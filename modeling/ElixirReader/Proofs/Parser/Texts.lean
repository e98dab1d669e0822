import ElixirReader.Proofs.Parser.Delimited
import ElixirReader.Parser.Quoted

/-
  This file shows what literals do to the state. In a balanced
  stretch every literal is ended, and the statements of its
  interpolations stay inside of them.

  Key definitions include:
    * `Setting.AgreesIn`

  Main declarations:
    * `within_interpolation`
    * `within_heredocStart`
    * `within_segmentsFor`
    * `tracks_segmentsFor`
    * `Run.text`
-/

namespace ElixirReader

open Parse

variable {α β : Type}
variable {h : Setting}
variable {inside : Bool}
variable {n : Nat}
variable {s s' : ParseState}
variable {expr : ExpressionParser}

------------------------------------------------------------
-- Poison
------------------------------------------------------------

/- The state of a statement that is poisoned. -/
def poisonedIf
    (b : Bool)
    (s : ParseState) : ParseState :=
  if b then { s with poisoned := true } else s

theorem Steady.poisonedIf
    (n : Nat)
    (b : Bool)
    (s : ParseState) :
    Steady n [] s (poisonedIf b s) := by
  cases b with
  | false => exact Steady.refl n s
  | true =>
      refine ⟨⟨rfl, rfl, ?_, List.prefix_refl _, rfl, rfl, rfl, ?_⟩,
        fun _ => rfl, ?_⟩
      · rintro (hNil | hBefore)
        · exact absurd rfl hNil
        · exact hBefore
      · exact Nat.le_max_left _ _
      · intro _
        change s.errors.length + 0 ≤ _
        exact Nat.le_add_right _ _

theorem Setting.place_poisonedIf
    (h : Setting)
    (b : Bool) :
    poisonedIf b (h.place s) = h.place (poisonedIf b s) := by
  cases b <;> rfl

------------------------------------------------------------
-- Interpolations
------------------------------------------------------------

/-
  What the larger text is of no matter to, with a delimiter
  open whose inside may be text.
-/
def Setting.AgreesIn
    (h : Setting)
    (d : Delimiter)
    (s s' : ParseState) : Prop :=
  h.IsWhole s ∨
    ((∃ ds after, h.Fits true (d :: ds) after s) ∧
      s'.errors = s.errors)

/- Text that has been read without an error still fits. -/
theorem Setting.Fits.step
    {ds : Nest}
    {after taken : List Lexeme}
    (hFits : h.Fits inside ds after s)
    (hMoves : Moves n taken s s')
    (hWithin : Within ds after s')
    (hPoisoned : s'.poisoned = s.poisoned) :
    h.Fits inside ds after s' := by
  have hFaultless := hFits.faultless
  rw [hMoves.rest, Faultless.append_iff] at hFaultless
  exact ⟨hFits.bounds, hWithin, hPoisoned.trans hFits.poisoned,
    hFaultless.2⟩

theorem interpolationEnd_of_cons
    {l : Lexeme}
    {ls : List Lexeme}
    (opened : Span)
    (hRest : s.rest = l :: ls)
    (hKind : l.kind = .interpolationEnd) :
    interpolationEnd opened s =
      (opened.merge l.span, s.advance 1) := by
  rw [interpolationEnd, Parse.bind_apply,
    eat_of_cons hRest hKind]
  rfl

theorem interpolationEnd_of_ne
    (opened : Span)
    (hKind : ∀ l, s.rest.head? = some l →
      l.kind ≠ .interpolationEnd) :
    interpolationEnd opened s =
      (opened.merge s.previousSpan, poisonedIf true s) := by
  rw [interpolationEnd, Parse.bind_apply, eat_of_ne hKind]
  rfl

theorem steady_interpolationEnd
    (n : Nat)
    (opened : Span)
    (s : ParseState) :
    ∃ taken, Steady n taken s (interpolationEnd opened s).2 := by
  by_cases hNext : ∃ l ls, s.rest = l :: ls ∧
      l.kind = .interpolationEnd
  · rcases hNext with ⟨l, ls, hRest, hKind⟩
    rw [interpolationEnd_of_cons opened hRest hKind]
    exact ⟨_, Steady.advance n 1 s⟩
  · rw [interpolationEnd_of_ne opened (by
      intro l hHead hKind
      rcases List.head?_eq_some_iff.mp hHead with ⟨ls, hRest⟩
      exact hNext ⟨l, ls, hRest, hKind⟩)]
    exact ⟨_, Steady.poisonedIf n true s⟩

theorem level_interpolation
    (hExpr : Sound n expr) :
    Level n .interpolation
      (statements expr (· == .interpolationEnd)) := by
  apply Level.statements hExpr
  · intro k
    cases k with
    | word w => cases w <;> simp [Kind.closer?]
    | _ => simp [Kind.closer?]
  · rfl
  · rfl

theorem interpolation_apply
    (expr : ExpressionParser)
    (opened : Span)
    (s : ParseState) :
    (interpolation expr opened s).2 =
      (interpolationEnd opened (statements expr
        (· == .interpolationEnd) (s.advance 1)).2).2 :=
  rfl

theorem steady_interpolation
    (hExpr : Sound n expr)
    {l : Lexeme}
    {ls : List Lexeme}
    (opened : Span)
    (hRest : s.rest = l :: ls)
    (hKind : l.kind = .interpolationStart) :
    ∃ taken, Steady n (l :: taken) s
      (interpolation expr opened s).2 := by
  have hLevel := level_interpolation hExpr
  have hOpens := (Passes.opens n hRest
    (show l.kind.opener? = some .interpolation by
      rw [hKind]; rfl))
  rcases (hLevel.walk .any (s.advance 1)).moves with
    ⟨taken, hMoves⟩
  rcases steady_interpolationEnd n opened (statements expr
    (· == .interpolationEnd) (s.advance 1)).2 with
    ⟨more, hSteady⟩
  rw [interpolation_apply]
  refine ⟨taken ++ more, ?_, ?_, ?_⟩
  · have hAll := (hOpens.toMoves.trans hMoves).trans
      hSteady.toMoves
    rw [List.append_assoc] at hAll
    exact hAll
  · intro hPoisoned
    apply hSteady.poisoned
    rw [hLevel.poisoned]
    exact hPoisoned
  · intro hKinds
    have hNone := hKinds l List.mem_cons_self
    rw [hKind] at hNone
    cases hNone

/- In a balanced stretch every interpolation is ended. -/
theorem exists_interpolationEnd
    (hExpr : Sound n expr)
    {l : Lexeme}
    {ls : List Lexeme}
    {ds : Nest}
    {after : List Lexeme}
    (hRest : s.rest = l :: ls)
    (hKind : l.kind = .interpolationStart)
    (hOpen : ds ≠ [])
    (hWithin : Within ds after s) :
    ∃ m ms,
      (statements expr (· == .interpolationEnd)
        (s.advance 1)).2.rest = m :: ms ∧
      m.kind = .interpolationEnd ∧
      ∀ s' : ParseState, s'.rest = ms → Within ds after s' := by
  have hRest' : s.rest = l :: (s.advance 1).rest := by
    rw [(ParseState.take_one hRest).2]
    exact hRest
  rcases hWithin.next hOpen hRest' with ⟨es, hNext, hInside⟩
  rw [Nest.next?_of_opener? (d := .interpolation)
    (by rw [hKind]; rfl) hNext] at hInside
  rcases hInside.exists_closer rfl with
    ⟨m, ms, hM, hInner, hOuter⟩
  have hEnd := (level_interpolation hExpr).rest _ m ms hM hInner
  refine ⟨m, ms, hEnd, ?_, hOuter⟩
  cases hKind' : m.kind with
  | interpolationEnd => rfl
  | word w => rw [hKind'] at hM; cases w <;> cases hM
  | _ => rw [hKind'] at hM; cases hM

theorem within_interpolation
    (hExpr : Sound n expr)
    {l : Lexeme}
    {ls : List Lexeme}
    {ds : Nest}
    {after : List Lexeme}
    (opened : Span)
    (hRest : s.rest = l :: ls)
    (hKind : l.kind = .interpolationStart)
    (hOpen : ds ≠ [])
    (hWithin : Within ds after s) :
    Within ds after (interpolation expr opened s).2 ∧
      (interpolation expr opened s).2.poisoned =
        s.poisoned := by
  rcases exists_interpolationEnd hExpr hRest hKind hOpen
    hWithin with ⟨m, ms, hEnd, hM, hOuter⟩
  rw [interpolation_apply,
    interpolationEnd_of_cons opened hEnd hM]
  constructor
  · exact hOuter _ (ParseState.take_one hEnd).2
  · exact (level_interpolation hExpr).poisoned _

theorem tracks_interpolation
    (hExpr : Sound n expr)
    {l : Lexeme}
    {ls : List Lexeme}
    {d : Delimiter}
    (opened : Span)
    (hRest : s.rest = l :: ls)
    (hKind : l.kind = .interpolationStart)
    (hAgrees : h.AgreesIn d s
      (interpolation expr opened s).2) :
    interpolation expr opened (h.place s) =
      ((interpolation expr opened s).1,
        h.place (interpolation expr opened s).2) := by
  have hOpener : l.kind.opener? = some .interpolation := by
    rw [hKind]
    rfl
  have hOpens := Passes.opens n hRest hOpener
  have hWalk := (level_interpolation hExpr).walk h (s.advance 1)
  let s₁ := (statements expr (· == .interpolationEnd)
    (s.advance 1)).2
  rcases hWalk.moves with ⟨taken, hMoves⟩
  rcases steady_interpolationEnd n opened s₁ with
    ⟨more, hSteady⟩
  have hStarted : s₁.before.isSome = true :=
    hMoves.before (.inr
      (hOpens.before (.inl (List.cons_ne_nil l []))))
  have hStatements :
      h.Agrees true (s.advance 1) s₁ := by
    rcases hAgrees with hWhole | ⟨⟨ds, after, hFits⟩, hErrors⟩
    · exact .inl (hWhole.step hOpens.toMoves)
    · refine .inr ⟨⟨.interpolation :: d :: ds, after,
        hFits.opens hRest hOpener, rfl⟩, ?_⟩
      exact (hMoves.errors_eq hSteady.toMoves hErrors).1
  have hFirst := h.place_skip hRest
  have hSecond := hWalk.tracks hStatements
  have hThird :
      interpolationEnd opened (h.place s₁) =
        ((interpolationEnd opened s₁).1,
          h.place (interpolationEnd opened s₁).2) := by
    by_cases hNext : ∃ m ms, s₁.rest = m :: ms ∧
        m.kind = .interpolationEnd
    · rcases hNext with ⟨m, ms, hRest', hKind'⟩
      have hPlace :
          (h.place s₁).rest = m :: (ms ++ h.after) := by
        simp [Setting.place, hRest']
      rw [interpolationEnd_of_cons opened hRest' hKind',
        interpolationEnd_of_cons opened hPlace hKind',
        h.place_advance (by simp [hRest'])]
    · rcases hAgrees with hWhole | ⟨⟨ds, after, hFits⟩, _⟩
      · have hOther :
            ∀ m, s₁.rest.head? = some m →
              m.kind ≠ .interpolationEnd := by
          intro m hHead hKind'
          rcases List.head?_eq_some_iff.mp hHead with
            ⟨ms, hRest'⟩
          exact hNext ⟨m, ms, hRest', hKind'⟩
        have hWhole' : h.IsWhole s₁ :=
          (hWhole.step hOpens.toMoves).step hMoves
        have hOther' :
            ∀ m, (h.place s₁).rest.head? = some m →
              m.kind ≠ .interpolationEnd := by
          rw [hWhole'.place_eq.1]
          exact hOther
        rw [interpolationEnd_of_ne opened hOther,
          interpolationEnd_of_ne opened hOther',
          h.place_poisonedIf]
        rcases Option.isSome_iff_exists.mp hStarted with
          ⟨b, hEq⟩
        have hSpan :
            (h.place s₁).previousSpan = s₁.previousSpan := by
          simp [ParseState.previousSpan, Setting.place, hEq]
        rw [hSpan]
      · exfalso
        rcases exists_interpolationEnd hExpr hRest hKind
          (List.cons_ne_nil d ds) hFits.within with
          ⟨m, ms, hEnd, hM, _⟩
        exact hNext ⟨m, ms, hEnd, hM⟩
  unfold interpolation
  rw [Parse.bind_apply, hFirst, Parse.bind_apply, hSecond,
    Parse.bind_apply, hThird]
  rfl

------------------------------------------------------------
-- Lines of promoters
------------------------------------------------------------

/- The number of lexemes on the line of a heredoc's promoter. -/
def lineLength
    (ls : List Lexeme) : Nat :=
  runLength (fun k => !isLineEnd k) ls

theorem heredocStart_apply
    (s : ParseState) :
    heredocStart s =
      ((), (poisonedIf (lineLength s.rest != 0) s).advance
        (lineLength s.rest + 1)) := by
  by_cases hZero : lineLength s.rest = 0
  · have hFlag : (lineLength s.rest != 0) = false := by
      simp [hZero]
    rw [hFlag]
    unfold heredocStart
    change (if lineLength s.rest ≠ 0 then _ else _ : Parse Unit)
      s = _
    rw [if_neg (by simp [hZero])]
    rfl
  · have hFlag : (lineLength s.rest != 0) = true := by
      simp [hZero]
    rw [hFlag]
    unfold heredocStart
    change (if lineLength s.rest ≠ 0 then _ else _ : Parse Unit)
      s = _
    rw [if_pos hZero]
    rfl

theorem steady_heredocStart
    (n : Nat)
    (s : ParseState) :
    Steady n (s.rest.take (lineLength s.rest + 1)) s
      (heredocStart s).2 := by
  rw [heredocStart_apply]
  have hPoison := Steady.poisonedIf n (lineLength s.rest != 0) s
  have hSkip := Steady.advance n (lineLength s.rest + 1)
    (poisonedIf (lineLength s.rest != 0) s)
  rw [← List.nil_append (poisonedIf _ s).rest,
    ← hPoison.rest] at hSkip
  exact hPoison.trans hSkip

/- A promoter's line holds bad characters only, and is ended. -/
theorem exists_line
    {f : Family}
    {ds : Nest}
    {ls : List Lexeme}
    (hBehind : Nest.behind? (.promoterLine f :: ds) ls =
      some []) :
    ∃ front l back,
      ls = front ++ l :: back ∧
        (∀ m ∈ front, m.kind = .badCharacter) ∧
        l.kind = .endOfLine ∧
        Nest.behind? (.literal f .heredoc :: ds) back =
          some [] := by
  induction ls with
  | nil => cases hBehind
  | cons l ls ih =>
      rcases Nest.exists_of_behind?_cons hBehind with
        ⟨es, hNext, hRest⟩
      change Nest.onPromoterLine? f ds l.kind = some es at hNext
      cases hKind : l.kind with
      | badCharacter =>
          rw [hKind] at hNext
          cases hNext
          rcases ih hRest with
            ⟨front, m, back, rfl, hFront, hM, hBack⟩
          refine ⟨l :: front, m, back, rfl, ?_, hM, hBack⟩
          intro k hMem
          rcases List.mem_cons.mp hMem with rfl | hMem'
          · exact hKind
          · exact hFront k hMem'
      | endOfLine =>
          rw [hKind] at hNext
          cases hNext
          exact ⟨[], l, ls, rfl, by simp, hKind, hRest⟩
      | _ =>
          rw [hKind] at hNext
          cases hNext

theorem lineLength_append
    {front back : List Lexeme}
    {l : Lexeme}
    (hFront : ∀ m ∈ front, m.kind = .badCharacter)
    (hKind : l.kind = .endOfLine) :
    lineLength (front ++ l :: back) = front.length := by
  have hAll : ∀ m ∈ front, (!isLineEnd m.kind) = true := by
    intro m hMem
    rw [hFront m hMem]
    rfl
  unfold lineLength runLength
  rw [List.takeWhile_append_of_pos hAll]
  simp [hKind, isLineEnd]

/- Behind the line of its promoter the text of a heredoc starts. -/
theorem within_heredocStart
    {f : Family}
    {ds : Nest}
    {after : List Lexeme}
    (hWithin : Within (.promoterLine f :: ds) after s) :
    Within (.literal f .heredoc :: ds) after
        (heredocStart s).2 ∧
      (Faultless (s.rest.take (lineLength s.rest + 1)) →
        (heredocStart s).2.poisoned = s.poisoned) := by
  rcases hWithin with ⟨ls, hRest, hBehind⟩
  rcases exists_line hBehind with
    ⟨front, l, back, rfl, hFront, hKind, hBack⟩
  rw [List.append_assoc, List.cons_append] at hRest
  have hLength : lineLength s.rest = front.length := by
    rw [hRest]
    exact lineLength_append hFront hKind
  rw [heredocStart_apply]
  constructor
  · refine ⟨back, ?_, hBack⟩
    have hDrop :
        ((poisonedIf (lineLength s.rest != 0) s).advance
          (lineLength s.rest + 1)).rest =
            s.rest.drop (lineLength s.rest + 1) := by
      cases (lineLength s.rest != 0) <;> rfl
    rw [hDrop, hLength, hRest, ← List.drop_drop,
      List.drop_left]
    rfl
  · intro hFaultless
    have hZero : lineLength s.rest = 0 := by
      rw [hLength]
      cases front with
      | nil => rfl
      | cons m front =>
          exfalso
          have hNone := hFaultless m (by simp [hRest])
          rw [hFront m List.mem_cons_self] at hNone
          cases hNone
    rw [hZero]
    rfl

theorem tracks_heredocStart
    {f : Family}
    (hAgrees : h.AgreesIn (.promoterLine f) s
      (heredocStart s).2) :
    heredocStart (h.place s) = ((), h.place (heredocStart s).2)
    := by
  rw [heredocStart_apply, heredocStart_apply]
  rcases hAgrees with hWhole | ⟨⟨ds, after, hFits⟩, _⟩
  · have hWhole' : h.IsWhole
        (poisonedIf (lineLength s.rest != 0) s) :=
      hWhole.step (Steady.poisonedIf 0 _ s).toMoves
    rw [hWhole.place_eq.1, h.place_poisonedIf,
      hWhole'.place_advance]
  · rcases hFits.within with ⟨ls, hRest, hBehind⟩
    rcases exists_line hBehind with
      ⟨front, l, back, rfl, hFront, hKind, _⟩
    rw [List.append_assoc, List.cons_append] at hRest
    have hLength : lineLength s.rest = front.length := by
      rw [hRest]
      exact lineLength_append hFront hKind
    have hPlace : lineLength (h.place s).rest =
        lineLength s.rest := by
      rw [hLength]
      change lineLength (s.rest ++ h.after) = _
      rw [hRest, List.append_assoc, List.cons_append]
      exact lineLength_append hFront hKind
    rw [hPlace, h.place_poisonedIf, h.place_advance]
    rw [hLength]
    have hEnough : front.length + 1 ≤ s.rest.length := by
      rw [hRest, List.length_append, List.length_cons]
      omega
    cases (front.length != 0) <;> exact hEnough

------------------------------------------------------------
-- Segments
------------------------------------------------------------

/- What a lexeme of a literal is. -/
inductive SegmentCase
    (l : Lexeme) : Prop where
| plain
    (segment : Segment Node)
    (hPlain : plainSegment? l = some segment)
    (hKind : ∀ f layout ds,
      Nest.next? (.literal f layout :: ds) l.kind =
        some (.literal f layout :: ds))
    (hNests : l.kind.nestsStatements = false)
| interpolation
    (hPlain : plainSegment? l = none)
    (hKind : l.kind = .interpolationStart)
| terminator
    (f : Family)
    (layout : Layout)
    (hPlain : plainSegment? l = none)
    (hKind : l.kind = .terminator f layout)
| other
    (hPlain : plainSegment? l = none)
    (hStart : l.kind ≠ .interpolationStart)
    (hTerminator : isTerminator l.kind = false)
    (hKind : ∀ f layout ds,
      Nest.next? (.literal f layout :: ds) l.kind = none)

theorem segmentCase
    (l : Lexeme) :
    SegmentCase l := by
  cases hKind : l.kind with
  | fragment f =>
      refine .plain (.fragment l.text) ?_ ?_ ?_
      · simp [plainSegment?, hKind]
      · intro f layout ds
        rw [hKind]
        rfl
      · rw [hKind]
        rfl
  | escapeSequence =>
      refine .plain (.escape l.text) ?_ ?_ ?_
      · simp [plainSegment?, hKind]
      · intro f layout ds
        rw [hKind]
        rfl
      · rw [hKind]
        rfl
  | heredocIndent =>
      refine .plain (.indent l.text) ?_ ?_ ?_
      · simp [plainSegment?, hKind]
      · intro f layout ds
        rw [hKind]
        rfl
      · rw [hKind]
        rfl
  | interpolationStart =>
      exact .interpolation (by simp [plainSegment?, hKind]) hKind
  | terminator f layout =>
      exact .terminator f layout
        (by simp [plainSegment?, hKind]) hKind
  | _ =>
      refine .other ?_ ?_ ?_ ?_
      · simp [plainSegment?, hKind]
      · simp [hKind]
      · simp [isTerminator, hKind]
      · intro f layout ds
        rw [hKind]
        rfl

section Segments

variable {k : Nat}
variable {span : Span}
variable {l : Lexeme}
variable {ls : List Lexeme}

theorem segmentsFor_of_nil
    (hRest : s.rest = []) :
    segmentsFor expr (k + 1) span s =
      (⟨[], span, false⟩, s) := by
  rw [segmentsFor, Parse.bind_apply, peek_of_nil hRest]
  rfl

theorem segmentsFor_of_plain
    {segment : Segment Node}
    (hRest : s.rest = l :: ls)
    (hPlain : plainSegment? l = some segment) :
    segmentsFor expr (k + 1) span s =
      let i := segmentsFor expr k (span.merge l.span)
        (s.advance 1)
      ({ i.1 with segments := segment :: i.1.segments },
        i.2) := by
  rw [segmentsFor, Parse.bind_apply, peek_of_cons hRest]
  simp only [hPlain]
  rfl

theorem segmentsFor_of_interpolation
    (hRest : s.rest = l :: ls)
    (hPlain : plainSegment? l = none)
    (hKind : l.kind = .interpolationStart) :
    segmentsFor expr (k + 1) span s =
      let r := interpolation expr l.span s
      let i := segmentsFor expr k (span.merge r.1.span) r.2
      ({ i.1 with
          segments := .interpolation r.1 :: i.1.segments },
        i.2) := by
  rw [segmentsFor, Parse.bind_apply, peek_of_cons hRest]
  simp only [hPlain]
  rw [if_pos hKind]
  rfl

theorem segmentsFor_of_terminator
    {f : Family}
    {layout : Layout}
    (hRest : s.rest = l :: ls)
    (hPlain : plainSegment? l = none)
    (hKind : l.kind = .terminator f layout) :
    segmentsFor expr (k + 1) span s =
      (⟨[], span.merge l.span, true⟩, s.advance 1) := by
  rw [segmentsFor, Parse.bind_apply, peek_of_cons hRest]
  simp only [hPlain]
  rw [if_neg (by simp [hKind]),
    if_pos (by simp [hKind, isTerminator])]
  rfl

theorem segmentsFor_of_other
    (hRest : s.rest = l :: ls)
    (hPlain : plainSegment? l = none)
    (hStart : l.kind ≠ .interpolationStart)
    (hTerminator : isTerminator l.kind = false) :
    segmentsFor expr (k + 1) span s =
      (⟨[], span, false⟩, s) := by
  rw [segmentsFor, Parse.bind_apply, peek_of_cons hRest]
  simp only [hPlain]
  rw [if_neg hStart, if_neg (by simp [hTerminator])]
  rfl

theorem steady_segmentsFor
    (span : Span)
    (hExpr : Sound n expr)
    (hBound : s.rest.length < k) :
    ∃ taken, Steady n taken s (segmentsFor expr k span s).2 := by
  induction k generalizing s span with
  | zero => omega
  | succ k ih =>
      cases hRest : s.rest with
      | nil =>
          rw [segmentsFor_of_nil hRest]
          exact ⟨[], Steady.refl n s⟩
      | cons l ls =>
          have hAdvance := Steady.advance n 1 s
          have hLength : (s.advance 1).rest.length < k := by
            rw [(ParseState.take_one hRest).2]
            rw [hRest, List.length_cons] at hBound
            omega
          cases segmentCase l with
          | plain segment hPlain hKind hNests =>
              rw [segmentsFor_of_plain hRest hPlain]
              rcases @ih (s.advance 1) (span.merge l.span)
                hLength with ⟨taken, hSteady⟩
              exact ⟨_, hAdvance.trans hSteady⟩
          | interpolation hPlain hKind =>
              rw [segmentsFor_of_interpolation hRest hPlain
                hKind]
              rcases steady_interpolation hExpr l.span hRest
                hKind with ⟨taken, hSteady⟩
              have hLess := hSteady.length_rest
              rw [List.length_cons] at hLess
              rcases @ih (interpolation expr l.span s).2
                (span.merge (interpolation expr l.span s).1.span)
                (by omega) with ⟨more, hMore⟩
              exact ⟨_, hSteady.trans hMore⟩
          | terminator f layout hPlain hKind =>
              rw [segmentsFor_of_terminator hRest hPlain hKind]
              exact ⟨_, hAdvance⟩
          | other hPlain hStart hTerminator hKind =>
              rw [segmentsFor_of_other hRest hPlain hStart
                hTerminator]
              exact ⟨[], Steady.refl n s⟩

/- In a balanced stretch every literal is ended. -/
theorem within_segmentsFor
    (span : Span)
    {f : Family}
    {layout : Layout}
    {ds : Nest}
    {after : List Lexeme}
    (hExpr : Sound n expr)
    (hBound : s.rest.length < k)
    (hWithin : Within (.literal f layout :: ds) after s) :
    (segmentsFor expr k span s).1.closed = true ∧
      Within ds after (segmentsFor expr k span s).2 ∧
      (segmentsFor expr k span s).2.poisoned = s.poisoned := by
  induction k generalizing s span with
  | zero => omega
  | succ k ih =>
      cases hRest : s.rest with
      | nil =>
          exact absurd hRest
            (hWithin.rest_ne_nil (List.cons_ne_nil _ _))
      | cons l ls =>
          have hTake := ParseState.take_one hRest
          have hHead : s.rest = l :: (s.advance 1).rest := by
            rw [hTake.2]
            exact hRest
          rcases hWithin.next (List.cons_ne_nil _ _) hHead with
            ⟨es, hNext, hWithin'⟩
          cases segmentCase l with
          | plain segment hPlain hKind hNests =>
              rw [hKind] at hNext
              cases hNext
              rw [segmentsFor_of_plain hRest hPlain]
              apply @ih (s.advance 1) (span.merge l.span) _
                hWithin'
              rw [hTake.2]
              rw [hRest, List.length_cons] at hBound
              omega
          | interpolation hPlain hKind =>
              rw [segmentsFor_of_interpolation hRest hPlain
                hKind]
              rcases steady_interpolation hExpr l.span hRest
                hKind with ⟨taken, hSteady⟩
              have hLess := hSteady.length_rest
              rw [List.length_cons] at hLess
              rcases within_interpolation hExpr l.span hRest
                hKind (List.cons_ne_nil _ _) hWithin with
                ⟨hBehind, hSame⟩
              have hMore := @ih (interpolation expr l.span s).2
                (span.merge (interpolation expr l.span s).1.span)
                (by omega) hBehind
              rw [hSame] at hMore
              exact hMore
          | terminator f' layout' hPlain hKind =>
              rw [segmentsFor_of_terminator hRest hPlain hKind]
              have hSame := Nest.next?_of_closer?
                (d := .literal f' layout') (by rw [hKind]; rfl)
                hNext
              rcases List.cons.inj hSame with ⟨_, rfl⟩
              exact ⟨rfl, hWithin', rfl⟩
          | other hPlain hStart hTerminator hKind =>
              rw [hKind] at hNext
              cases hNext

/- Text that has been read without an error is of no matter. -/
theorem Setting.AgreesIn.step
    {d : Delimiter}
    {s'' : ParseState}
    {taken taken' : List Lexeme}
    (hAgrees : h.AgreesIn d s s'')
    (hMoves : Moves n taken s s')
    (hMoves' : Moves n taken' s' s'')
    (hWithin : ∀ ds after,
      Within (d :: ds) after s →
        Within (d :: ds) after s' ∧
          s'.poisoned = s.poisoned) :
    h.AgreesIn d s s' ∧ h.AgreesIn d s' s'' := by
  rcases hAgrees with hWhole | ⟨⟨ds, after, hFits⟩, hErrors⟩
  · exact ⟨.inl hWhole, .inl (hWhole.step hMoves)⟩
  · have hBoth := hMoves.errors_eq hMoves' hErrors
    rcases hWithin ds after hFits.within with
      ⟨hWithin', hPoisoned⟩
    exact ⟨.inr ⟨⟨ds, after, hFits⟩, hBoth.1⟩,
      .inr ⟨⟨ds, after, hFits.step hMoves hWithin' hPoisoned⟩,
        hBoth.2⟩⟩

/- So is a part of the text of one lexeme. -/
theorem Setting.AgreesIn.advance
    {d : Delimiter}
    {l : Lexeme}
    {ls taken : List Lexeme}
    (hAgrees : h.AgreesIn d s s')
    (hRest : s.rest = l :: ls)
    (hMoves : Moves n taken (s.advance 1) s')
    (hKind : ∀ ds,
      Nest.next? (d :: ds) l.kind = some (d :: ds)) :
    h.AgreesIn d (s.advance 1) s' := by
  have hStep := (Steady.advance n 1 s).toMoves
  refine (hAgrees.step hStep hMoves ?_).2
  intro ds after hWithin
  rw [← (ParseState.take_one hRest).2] at hRest
  rcases hWithin.next (List.cons_ne_nil d ds) hRest with
    ⟨es, hEs, hWithin'⟩
  rw [hKind] at hEs
  cases hEs
  exact ⟨hWithin', rfl⟩

theorem tracks_segmentsFor
    (span : Span)
    {f : Family}
    {layout : Layout}
    {m : Nat}
    (hExpr : Sound n expr)
    (hBound : s.rest.length < k)
    (hBound' : s.rest.length + h.after.length < m)
    (hAgrees : h.AgreesIn (.literal f layout) s
      (segmentsFor expr k span s).2) :
    segmentsFor expr m span (h.place s) =
      ((segmentsFor expr k span s).1,
        h.place (segmentsFor expr k span s).2) := by
  induction k generalizing m s span with
  | zero => omega
  | succ k ih =>
      cases m with
      | zero => omega
      | succ m =>
          cases hRest : s.rest with
          | nil =>
              have hPlace : (h.place s).rest = [] := by
                rcases hAgrees with
                  hWhole | ⟨⟨ds, after, hFits⟩, _⟩
                · rw [hWhole.place_eq.1, hRest]
                · exact absurd hRest (hFits.within.rest_ne_nil
                    (List.cons_ne_nil _ _))
              rw [segmentsFor_of_nil hRest,
                segmentsFor_of_nil hPlace]
          | cons l ls =>
              have hTake := ParseState.take_one hRest
              have hPlace :
                  (h.place s).rest = l :: (ls ++ h.after) := by
                simp [Setting.place, hRest]
              have hAdvance : (h.place s).advance 1 =
                  h.place (s.advance 1) :=
                h.place_advance (by simp [hRest])
              have hLength : (s.advance 1).rest.length + 1 =
                  s.rest.length := by
                rw [hTake.2, hRest, List.length_cons]
              cases segmentCase l with
              | plain segment hPlain hKind hNests =>
                  rw [segmentsFor_of_plain hRest hPlain]
                    at hAgrees ⊢
                  rw [segmentsFor_of_plain hPlace hPlain,
                    hAdvance]
                  rcases steady_segmentsFor
                      (span.merge l.span) hExpr
                      (show (s.advance 1).rest.length < k by
                        omega) with ⟨taken, hSteady⟩
                  have hNext := hAgrees.advance hRest
                    hSteady.toMoves (hKind f layout)
                  have hSame := @ih (s.advance 1)
                    (span.merge l.span) m (by omega) (by omega)
                    hNext
                  simp only [hSame]
              | interpolation hPlain hKind =>
                  rw [segmentsFor_of_interpolation hRest hPlain
                    hKind] at hAgrees ⊢
                  rw [segmentsFor_of_interpolation hPlace hPlain
                    hKind]
                  rcases steady_interpolation hExpr l.span hRest
                    hKind with ⟨taken, hSteady⟩
                  have hLess := hSteady.length_rest
                  rw [List.length_cons] at hLess
                  rcases steady_segmentsFor
                      (span.merge
                        (interpolation expr l.span s).1.span)
                      hExpr
                      (show (interpolation expr l.span
                        s).2.rest.length < k by omega) with
                    ⟨more, hMore⟩
                  have hStep := hAgrees.step hSteady.toMoves
                    hMore.toMoves (by
                      intro ds after hWithin
                      exact within_interpolation hExpr l.span
                        hRest hKind (List.cons_ne_nil _ _)
                        hWithin)
                  have hFirst := tracks_interpolation hExpr
                    l.span hRest hKind hStep.1
                  have hSame := @ih
                    (interpolation expr l.span s).2
                    (span.merge
                      (interpolation expr l.span s).1.span) m
                    (by omega) (by omega) hStep.2
                  simp only [hFirst, hSame]
              | terminator f' layout' hPlain hKind =>
                  rw [segmentsFor_of_terminator hRest hPlain
                    hKind, segmentsFor_of_terminator hPlace
                    hPlain hKind, hAdvance]
              | other hPlain hStart hTerminator hKind =>
                  rw [segmentsFor_of_other hRest hPlain hStart
                    hTerminator, segmentsFor_of_other hPlace
                    hPlain hStart hTerminator]

end Segments

------------------------------------------------------------
-- Literals
------------------------------------------------------------

/- The state in which the text of a literal starts. -/
def textStart
    (heredoc : Bool)
    (s : ParseState) : ParseState :=
  if heredoc then (heredocStart s).2 else s

/- What the inside of a literal makes of it. -/
def textOf
    (kind : TextKind)
    (heredoc : Bool)
    (i : Inside) : Text Node × Span :=
  (⟨kind, heredoc, (splitIndent heredoc i).1,
    (splitIndent heredoc i).2⟩, i.span)

theorem text_apply
    (s : ParseState) :
    text expr s =
      let p := promoterText s.rest.head?
      let s₁ := textStart p.2 (s.advance 1)
      let i :=
        segmentsFor expr (s₁.rest.length + 1) s.currentSpan s₁
      (textOf p.1 p.2 i.1, poisonedIf (!i.1.closed) i.2) := by
  have hSpan : currentSpan s = (s.currentSpan, s) := rfl
  have hPeek : peek s = (s.rest.head?, s) := rfl
  rw [text, Parse.bind_apply, hSpan]
  simp only
  rw [Parse.bind_apply, hPeek]
  simp only
  generalize promoterText s.rest.head? = p
  generalize s.currentSpan = start
  rcases p with ⟨kind, heredoc⟩
  -- The statement is poisoned if the literal is not ended.
  have hBody :
      ∀ s₁ : ParseState,
        (do
          let ls ← rest
          let i ← segmentsFor expr (ls.length + 1) start
          if (!i.closed) = true then
            poison
          return textOf kind heredoc i) s₁ =
          let i := segmentsFor expr (s₁.rest.length + 1) start
            s₁
          (textOf kind heredoc i.1,
            poisonedIf (!i.1.closed) i.2) := by
    intro s₁
    rw [Parse.bind_apply]
    change (segmentsFor expr (s₁.rest.length + 1) start >>= _)
      s₁ = _
    rw [Parse.bind_apply]
    generalize segmentsFor expr (s₁.rest.length + 1) start
      s₁ = i
    rcases i with ⟨⟨segments, span, closed⟩, s₂⟩
    cases closed <;> rfl
  cases heredoc with
  | false => exact hBody (s.advance 1)
  | true => exact hBody (heredocStart (s.advance 1)).2

theorem text_of_cons
    {l : Lexeme}
    {ls : List Lexeme}
    (hRest : s.rest = l :: ls) :
    text expr s =
      let p := promoterText (some l)
      let s₁ := textStart p.2 (s.advance 1)
      let i := segmentsFor expr (s₁.rest.length + 1) l.span s₁
      (textOf p.1 p.2 i.1, poisonedIf (!i.1.closed) i.2) := by
  have hSpan : s.currentSpan = l.span := by
    simp [ParseState.currentSpan, hRest]
  rw [text_apply, hSpan, hRest]
  rfl

theorem steady_textStart
    (n : Nat)
    (heredoc : Bool)
    (s : ParseState) :
    ∃ taken, Steady n taken s (textStart heredoc s) := by
  cases heredoc with
  | false => exact ⟨[], Steady.refl n s⟩
  | true => exact ⟨_, steady_heredocStart n s⟩

/- What is open behind a promoter. -/
def promoted
    (f : Family) : Layout → Delimiter
| .quoted => .literal f .quoted
| .heredoc => .promoterLine f

theorem opener?_promoter
    (f : Family)
    (layout : Layout) :
    (Kind.promoter f layout).opener? =
      some (promoted f layout) := by
  cases layout <;> rfl

theorem promoterText_of_promoter
    {l : Lexeme}
    {f : Family}
    {layout : Layout}
    (hKind : l.kind = .promoter f layout) :
    (promoterText (some l)).2 = (layout == .heredoc) := by
  simp only [promoterText, hKind]
  cases f <;> cases layout <;> rfl

theorem within_textStart
    {f : Family}
    {layout : Layout}
    {ds : Nest}
    {after : List Lexeme}
    (hWithin : Within (promoted f layout :: ds) after s) :
    Within (.literal f layout :: ds) after
        (textStart (layout == .heredoc) s) ∧
      ∃ taken,
        Moves 0 taken s (textStart (layout == .heredoc) s) ∧
          (Faultless taken →
            (textStart (layout == .heredoc) s).poisoned =
              s.poisoned) := by
  cases layout with
  | quoted =>
      exact ⟨hWithin, [], Moves.refl 0 s, fun _ => rfl⟩
  | heredoc =>
      rcases within_heredocStart hWithin with
        ⟨hWithin', hPoisoned⟩
      exact ⟨hWithin', _, (steady_heredocStart 0 s).toMoves,
        hPoisoned⟩

theorem tracks_textStart
    {f : Family}
    {layout : Layout}
    (hAgrees : h.AgreesIn (promoted f layout) s
      (textStart (layout == .heredoc) s)) :
    textStart (layout == .heredoc) (h.place s) =
      h.place (textStart (layout == .heredoc) s) := by
  cases layout with
  | quoted => rfl
  | heredoc =>
      have hSame := tracks_heredocStart hAgrees
      exact congrArg Prod.snd hSame

/- A literal is taken as a whole. -/
theorem passes_text
    {l : Lexeme}
    {ls : List Lexeme}
    {f : Family}
    {layout : Layout}
    (hExpr : Sound n expr)
    (hRest : s.rest = l :: ls)
    (hKind : l.kind = .promoter f layout) :
    ∃ taken, Passes n [] [] (l :: taken) s
      (text expr s).2 := by
  have hOpens := Passes.opens n hRest
    (hKind ▸ opener?_promoter f layout)
  rcases steady_textStart n (layout == .heredoc) (s.advance 1)
    with ⟨first, hStart⟩
  have hText := fun ds after => @within_textStart
    (s.advance 1) f layout ds after
  rw [text_of_cons hRest]
  simp only
  rw [promoterText_of_promoter hKind]
  generalize textStart (layout == .heredoc) (s.advance 1) = s₁
    at hStart hText
  have hBound := Nat.lt_succ_self s₁.rest.length
  rcases steady_segmentsFor l.span hExpr hBound with
    ⟨second, hSegments⟩
  have hAll := (hOpens.toSteady.trans hStart).trans hSegments
  refine ⟨first ++ second ++ [], ?_, ?_⟩
  · have hPoisonedIf := hAll.trans (Steady.poisonedIf n
      (!(segmentsFor expr (s₁.rest.length + 1) l.span
        s₁).1.closed) _)
    simpa using hPoisonedIf
  · intro ds after hAfter hWithin
    have hOpen := (hOpens.within ds after hAfter hWithin).1
    rcases hText ds after hOpen with
      ⟨hWithin', taken, hMoves, hFaultless⟩
    rcases within_segmentsFor l.span hExpr hBound hWithin'
      with ⟨hClosed, hBehind, hSame⟩
    rw [hClosed]
    refine ⟨hBehind, ?_⟩
    intro hNone hClean hPoisoned
    exfalso
    have hTaken : taken = first :=
      List.append_cancel_right
        (hMoves.rest.symm.trans hStart.rest)
    have hFirst : Faultless taken := by
      intro m hMem
      rw [hTaken] at hMem
      exact hNone m (by simp [hMem])
    change (segmentsFor _ _ _ _).2.poisoned = true at hPoisoned
    rw [hSame, hFaultless hFirst] at hPoisoned
    change s.poisoned = true at hPoisoned
    rw [hClean] at hPoisoned
    cases hPoisoned

theorem tracks_text
    {l : Lexeme}
    {ls : List Lexeme}
    {f : Family}
    {layout : Layout}
    (hExpr : Sound n expr)
    (hRest : s.rest = l :: ls)
    (hKind : l.kind = .promoter f layout) :
    Tracks h inside (text expr) (text expr) s := by
  intro hAgrees
  have hOpener : l.kind.opener? = some (promoted f layout) :=
    hKind ▸ opener?_promoter f layout
  have hOpens := Passes.opens n hRest hOpener
  have hPlace :
      (h.place s).rest = l :: (ls ++ h.after) := by
    simp [Setting.place, hRest]
  have hFirst : (h.place s).advance 1 = h.place (s.advance 1) :=
    h.place_advance (by simp [hRest])
  rcases steady_textStart n (layout == .heredoc) (s.advance 1)
    with ⟨first, hStart⟩
  have hText := fun ds after => @within_textStart
    (s.advance 1) f layout ds after
  have hSecond := @tracks_textStart h (s.advance 1) f layout
  rw [text_of_cons hRest] at hAgrees ⊢
  rw [text_of_cons hPlace]
  simp only at hAgrees ⊢
  rw [promoterText_of_promoter hKind] at hAgrees ⊢
  rw [hFirst]
  generalize textStart (layout == .heredoc) (s.advance 1) = s₁
    at hStart hText hSecond hAgrees ⊢
  have hBound := Nat.lt_succ_self s₁.rest.length
  rcases steady_segmentsFor l.span hExpr hBound with
    ⟨second, hSegments⟩
  have hPoisonedIf := Steady.poisonedIf n
    (!(segmentsFor expr (s₁.rest.length + 1) l.span
      s₁).1.closed)
    (segmentsFor expr (s₁.rest.length + 1) l.span s₁).2
  -- The larger text is of no matter behind the promoter.
  have hInside :
      h.AgreesIn (promoted f layout) (s.advance 1) s₁ ∧
        h.AgreesIn (.literal f layout) s₁
          (segmentsFor expr (s₁.rest.length + 1) l.span
            s₁).2 := by
    rcases hAgrees with
      hWhole | ⟨⟨ds, after, hFits, _⟩, hErrors⟩
    · have hWhole' := hWhole.step hOpens.toMoves
      exact ⟨.inl hWhole', .inl (hWhole'.step hStart.toMoves)⟩
    · have hFits' := hFits.opens hRest hOpener
      have hBoth := hStart.toMoves.errors_eq
        (hSegments.trans hPoisonedIf).toMoves hErrors
      have hErrors' := hSegments.toMoves.errors_eq
        hPoisonedIf.toMoves hBoth.2
      refine ⟨.inr ⟨⟨ds, after, hFits'⟩, hBoth.1⟩,
        .inr ⟨⟨ds, after, ?_⟩, hErrors'.1⟩⟩
      rcases hText ds after hFits'.within with
        ⟨hWithin, taken, hMoves, hFaultless⟩
      have hNone := hFits'.faultless
      rw [hMoves.rest, Faultless.append_iff] at hNone
      refine ⟨?_, hWithin, ?_, hNone.2⟩
      · cases hFits'.bounds with
        | ends m ms hEnds _ =>
            exact .ends m ms hEnds
              (fun _ => List.cons_ne_nil _ ds)
        | closer m ms hBarrier hNot =>
            exact .closer m ms hBarrier hNot
      · exact (hFaultless hNone.1).trans hFits'.poisoned
  have hBound' :
      s₁.rest.length + h.after.length <
        (h.place s₁).rest.length + 1 := by
    change _ < (s₁.rest ++ h.after).length + 1
    rw [List.length_append]
    omega
  have hThird := tracks_segmentsFor l.span hExpr
    hBound hBound' hInside.2
  rw [hSecond hInside.1, hThird, h.place_poisonedIf]

theorem Run.text
    {l : Lexeme}
    {ls : List Lexeme}
    {f : Family}
    {layout : Layout}
    (hExpr : Sound n expr)
    (hRest : s.rest = l :: ls)
    (hKind : l.kind = .promoter f layout) :
    Run h n inside (Parse.text expr) (Parse.text expr) s := by
  rcases passes_text hExpr hRest hKind with ⟨taken, hPasses⟩
  exact ⟨⟨_, hPasses.takes⟩, tracks_text hExpr hRest hKind⟩

end ElixirReader
