import ElixirReader.Proofs.Errors.Texts
import ElixirReader.Proofs.Likeness.Mirroring

/-
  This file lets two runs go side by side through statements
  and through the texts of literals.

  Key definitions include:
    * `Ended`

  Main declarations:
    * `Mirrors.finishStatement`
    * `Mirrors.statements`
    * `Mirrors.segmentsFor`
    * `Mirrors.text`
-/

namespace ElixirReader

open Parse
open Placed (unplaced)

variable {α β : Type}
variable {deep : Bool}
variable {k m : Nat}
variable {ds es : Nest}
variable {l l' : Lexeme}
variable {ls ls' : List Lexeme}
variable {place : List Lexeme → List Lexeme → Prop}
variable {stop : Kind → Bool}
variable {s s' : ParseState}

------------------------------------------------------------
-- Ends of statements
------------------------------------------------------------

theorem Heads.stops
    (hHeads : Heads ls ls')
    (hStops : Stops stop ls) :
    Stops stop ls' := by
  cases hHeads with
  | nil => exact hStops
  | @cons l l' ms ms' hSame hMore =>
      change (isSeparator l'.kind || stop l'.kind) = true
      rw [← hSame.kind]
      exact hStops

theorem Heads.starts
    (hHeads : Heads ls ls')
    (hStarts : Starts stop ls) :
    Starts stop ls' := by
  cases hHeads with
  | nil => exact hStarts
  | @cons l l' ms ms' hSame hMore =>
      change (isSeparator l'.kind || stop l'.kind) = false
      rw [← hSame.kind]
      exact hStarts

/- Behind a statement in order another one may follow. -/
theorem resumes_of_stops
    (hTight : Tight ls ls')
    (hStops : Stops stop ls) :
    Resumes stop ls ls' := by
  refine .inr ⟨hTight, ?_⟩
  rintro l ms rfl
  exact Bool.or_eq_true_iff.mp hStops

theorem boundaryError?_of_stops
    (hStops : Stops stop s.rest) :
    boundaryError? stop s = (none, s) := by
  cases hRest : s.rest with
  | nil => exact boundaryError?_of_nil stop hRest
  | cons l ls =>
      rw [hRest] at hStops
      have hEnds : (isSeparator l.kind || stop l.kind) = true :=
        hStops
      rw [boundaryError?_of_cons stop hRest, if_pos]
      rw [hEnds, Bool.true_or]

/- What is left of a statement's lexemes is less than all of them. -/
theorem length_lt_of_stops
    {start : List Lexeme}
    (hSuffix : ls <:+ start)
    (hStarts : Starts stop start)
    (hStops : Stops stop ls) :
    ls.length < start.length := by
  apply Nat.lt_of_le_of_ne hSuffix.length_le
  intro hLength
  rw [hSuffix.eq_of_length hLength] at hStops
  exact not_stops_of_starts hStarts hStops

namespace Mirrors

/- No statement in order leaves anything behind. -/
theorem finishStatement
    {start start' : List Lexeme}
    (hPaired : Paired ds Tight s s')
    (hSuffix : s.rest <:+ start)
    (hSuffix' : s'.rest <:+ start')
    (hStarts : Starts stop start)
    (hStarts' : Starts stop start') :
    Mirrors deep
      (fun a b t t' => a = none ∧ b = none ∧
        Paired ds (Resumes stop) t t')
      (Parse.finishStatement stop start)
      (Parse.finishStatement stop start') s s' := by
  rcases boundaryError?_cases stop s with
    ⟨hNone, hStops⟩ | ⟨e, fault, span, hError, hClean⟩
  · have hStop := hStops hPaired.poisoned
    have hStop' := (Heads.of_tight hPaired.place).stops hStop
    have hLess := length_lt_of_stops hSuffix hStarts hStop
    have hLess' := length_lt_of_stops hSuffix' hStarts' hStop'
    have hResumes : Paired ds (Resumes stop) s s' :=
      hPaired.mono fun hTight => resumes_of_stops hTight hStop
    have hPure : Mirrors deep
        (fun a b t t' => a = none ∧ b = none ∧
          Paired ds (Resumes stop) t t')
        (Pure.pure none : Parse (Option Node)) (Pure.pure none)
        s s' :=
      pure ⟨rfl, rfl, hResumes⟩
    exact hPure.of_eq
      (finishStatement_of_clean hPaired.poisoned hNone hLess)
      (finishStatement_of_clean hPaired.poisoned'
        (boundaryError?_of_stops hStop') hLess')
  · apply bind_of_fails hPaired
    intro _
    rw [hError]
    exact errors_report_ne fault span hClean

------------------------------------------------------------
-- Statements
------------------------------------------------------------

theorem bind_skipSeparators
    {post : Post β}
    {f g : Unit → Parse β}
    (hPaired : Paired ds (Resumes stop) s s')
    (hCode : ds.isCode = true)
    (hMirrors : ∀ t t', Paired ds Heads t t' →
      (endsAt stop t.rest.head? = false →
        Starts stop t.rest ∧ Paired ds Begins t t') →
      Mirrors deep post (f ()) (g ()) t t') :
    Mirrors deep post (Parse.skipSeparators >>= f)
      (Parse.skipSeparators >>= g) s s' := by
  have hPlace : ∀ place : List Lexeme → List Lexeme → Prop,
      place = (fun ls ls' => Heads ls ls' ∧
        (endsAt stop ls.head? = false → Begins ls ls')) →
      place (dropRun isSeparator s.rest)
        (dropRun isSeparator s'.rest) := by
    rintro place rfl
    exact ⟨hPaired.place.heads_dropRun, hPaired.place.begins_dropRun⟩
  have hSkip := bind_skipRun isSeparator hPaired hCode
    (fun _ => id) (hPlace _ rfl) (fun t t' hRest hBoth =>
      hMirrors t t' (hBoth.mono And.left) (by
        intro hEnds
        have hStarts := @starts_skipSeparators s stop
        rw [rest_skipSeparators] at hStarts
        rw [hRest] at hEnds ⊢
        refine ⟨hStarts hEnds, hBoth.mono fun hPlace => ?_⟩
        apply hPlace.2
        rw [hRest]
        exact hEnds))
  exact hSkip.of_eq rfl rfl

section Statements

variable {expr expr' : ExpressionParser}
variable [∀ precedence context, Retains (expr precedence context)]
variable [∀ precedence context, Retains (expr' precedence context)]

theorem statement
    (hExpr : Mirrored deep expr expr')
    (hPaired : Paired ds Begins s s')
    (hCode : ds.isCode = true)
    (hStarts : Starts stop s.rest) :
    Mirrors deep (alike ds (Resumes stop))
      (Parse.statement expr stop) (Parse.statement expr' stop)
      s s' := by
  apply bind_rest
  apply (hExpr ds 0 .statement s s' hCode hPaired).bind_later
    inferInstance inferInstance
  rintro node node' t t' hLater hLater' ⟨hNode, hTight⟩
  have hStarts' := (Heads.of_begins hPaired.place).starts hStarts
  apply (finishStatement hTight hLater.rest hLater'.rest hStarts
    hStarts').bind
  rintro _ _ u u' ⟨rfl, rfl, hResumes⟩
  exact pure ⟨hNode, hResumes⟩

end Statements

end Mirrors

/- Where statements have come to their end. -/
def Ended
    (stop : Kind → Bool)
    (ls ls' : List Lexeme) : Prop :=
  Heads ls ls' ∧ endsAt stop ls.head? = true

namespace Mirrors

variable {expr expr' : ExpressionParser}
variable [∀ precedence context, Retains (expr precedence context)]
variable [∀ precedence context, Retains (expr' precedence context)]

theorem statementsFor
    (hExpr : Mirrored deep expr expr')
    (hPaired : Paired ds (Resumes stop) s s')
    (hCode : ds.isCode = true) :
    Mirrors deep (alike ds (Ended stop))
      (Parse.statementsFor expr stop k)
      (Parse.statementsFor expr' stop m) s s' := by
  induction k generalizing m s s' with
  | zero => exact cutOff_left
  | succ k ih =>
      cases m with
      | zero => exact cutOff_right
      | succ m =>
          apply bind_skipSeparators hPaired hCode
          intro t t' hHeads hBegins
          apply bind_peek
          rw [hHeads.place.endsAt_eq]
          cases hEnds : endsAt stop t.rest.head? with
          | true =>
              exact pure ⟨rfl, hHeads.mono fun h => ⟨h, hEnds⟩⟩
          | false =>
              rcases hBegins hEnds with ⟨hStarts, hStart⟩
              apply (statement hExpr hStart hCode hStarts).bind
              rintro node node' u u' ⟨hNode, hResumes⟩
              apply (ih hResumes).bind
              rintro nodes nodes' v v' ⟨hNodes, hEnded⟩
              exact pure ⟨Alike.cons_iff.mpr ⟨hNode, hNodes⟩, hEnded⟩

/- Statements end at a lexeme where they stop, or at the end. -/
theorem statements
    (hExpr : Mirrored deep expr expr')
    (hPaired : Paired ds (Resumes stop) s s')
    (hCode : ds.isCode = true) :
    Mirrors deep (alike ds (Ended stop))
      (Parse.statements expr stop) (Parse.statements expr' stop)
      s s' := by
  apply bind_rest
  apply isolated hPaired
  intro t t' hResumes
  exact statementsFor hExpr hResumes hCode

------------------------------------------------------------
-- Interpolations
------------------------------------------------------------

/- In a text in order an interpolation is ended. -/
theorem interpolationEnd
    (opened opened' : Span)
    (hPaired :
      Paired (.interpolation :: ds) (Ended (· == .interpolationEnd))
        s s') :
    Mirrors deep (alike ds Tight) (Parse.interpolationEnd opened)
      (Parse.interpolationEnd opened') s s' := by
  rcases hPaired.place with ⟨hHeads, hEnds⟩
  generalize hRest : s.rest = ms at *
  generalize hRest' : s'.rest = ms' at *
  cases hHeads with
  | nil =>
      have hFramed := hPaired.framed
      rw [hRest] at hFramed
      cases hFramed
  | @cons l l' ls ls' hSame hMore =>
      have hKind : l.kind = .interpolationEnd := by
        simpa [endsAt] using hEnds
      have hTight : Tight ls ls' := by
        apply hMore.tight
        intro next
        rw [hKind]
        rfl
      have hPure : Mirrors deep (alike ds Tight)
          (Pure.pure (opened.merge l.span))
          (Pure.pure (opened'.merge l'.span))
          (s.advance 1) (s'.advance 1) := by
        apply pure
        refine ⟨rfl, hPaired.take_one hRest hRest' ?_ hTight⟩
        rw [hKind]
        rfl
      exact hPure.of_eq (interpolationEnd_of_cons opened hRest hKind)
        (interpolationEnd_of_cons opened' hRest'
          (hSame.kind.symm.trans hKind))

theorem interpolation
    {f : Family}
    {layout : Layout}
    (hExpr : Mirrored deep expr expr')
    (opened opened' : Span)
    (hPaired : Paired (.literal f layout :: ds) place s s')
    (hRest : s.rest = l :: ls)
    (hRest' : s'.rest = l' :: ls')
    (hKind : l.kind = .interpolationStart)
    (hMore : Matches ⟨l.kind, true⟩ ls ls') :
    Mirrors deep (alike (.literal f layout :: ds) Tight)
      (Parse.interpolation expr opened)
      (Parse.interpolation expr' opened') s s' := by
  have hOpened :
      Paired (.interpolation :: .literal f layout :: ds)
        (Resumes (· == .interpolationEnd))
        (s.advance 1) (s'.advance 1) := by
    apply hPaired.take_one hRest hRest'
    · rw [hKind]
      rfl
    · refine .inl ⟨_, ?_, hMore⟩
      rw [hKind]
      rfl
  apply bind_skip
  apply (statements hExpr hOpened rfl).bind
  rintro body body' t t' ⟨hBody, hEnded⟩
  apply (interpolationEnd opened opened' hEnded).bind
  rintro span span' u u' ⟨_, hTight⟩
  refine pure ⟨?_, hTight⟩
  change unplaced _ = unplaced _
  simp [show unplaced body = unplaced body' from hBody]

end Mirrors

------------------------------------------------------------
-- Segments
------------------------------------------------------------

instance : Placed Inside :=
  ⟨fun i => ⟨unplaced i.segments, Span.none, i.closed⟩⟩

theorem Alike.inside
    {ss ss' : List (Segment Node)}
    {span span' : Span}
    {closed : Bool}
    (hSegments : Alike ss ss') :
    Alike (⟨ss, span, closed⟩ : Inside) ⟨ss', span', closed⟩ :=
  congrArg (fun ss => (⟨ss, Span.none, closed⟩ : Inside)) hSegments

theorem Alike.segments
    {i i' : Inside}
    (hInside : Alike i i') :
    Alike i.segments i'.segments :=
  congrArg Inside.segments hInside

theorem Alike.closed_eq
    {i i' : Inside}
    (hInside : Alike i i') :
    i.closed = i'.closed := by
  have hClosed := congrArg Inside.closed hInside
  exact hClosed

theorem plainSegment?_eq
    (hSame : l.Same l') :
    plainSegment? l' = plainSegment? l := by
  have hText := hSame.text
  unfold plainSegment?
  rw [← hSame.kind]
  split <;> rename_i hKind
  · rw [hText (by rw [hKind]; simp)]
  · rw [hText (by rw [hKind]; simp)]
  · rw [hText (by rw [hKind]; simp)]
  · rfl

/- The inside of a literal that has been ended. -/
def closedInside
    (ds : Nest) : Post Inside :=
  fun i i' s s' =>
    Alike i i' ∧ i.closed = true ∧ Paired ds Tight s s'

namespace Mirrors

variable {expr expr' : ExpressionParser}
variable [∀ precedence context, Retains (expr precedence context)]
variable [∀ precedence context, Retains (expr' precedence context)]

/- One more segment in front. -/
theorem closedInside_cons
    {segment segment' : Segment Node}
    {p q : Parse Inside}
    (hMirrors : Mirrors deep (closedInside ds) p q s s')
    (hSegment : Alike segment segment') :
    Mirrors deep (closedInside ds)
      (do
        let i ← p
        return { i with segments := segment :: i.segments })
      (do
        let i ← q
        return { i with segments := segment' :: i.segments }) s s' := by
  apply hMirrors.bind
  rintro ⟨ss, span, closed⟩ ⟨ss', span', closed'⟩ t t'
    ⟨hInside, hClosed, hTight⟩
  cases hInside.closed_eq
  refine pure ⟨?_, hClosed, hTight⟩
  exact .inside (Alike.cons_iff.mpr ⟨hSegment, hInside.segments⟩)

/- In a text in order every literal is ended. -/
theorem segmentsFor
    {f : Family}
    {layout : Layout}
    (span span' : Span)
    (hExpr : Mirrored deep expr expr')
    (hPaired : Paired (.literal f layout :: ds) Tight s s') :
    Mirrors deep (closedInside ds) (Parse.segmentsFor expr k span)
      (Parse.segmentsFor expr' m span') s s' := by
  induction k generalizing m s s' span span' with
  | zero => exact cutOff_left
  | succ k ih =>
      cases m with
      | zero => exact cutOff_right
      | succ m =>
          have hTight := hPaired.place
          have hFramed := hPaired.framed
          generalize hRest : s.rest = ms at *
          generalize hRest' : s'.rest = ms' at *
          rcases hTight.cases with
            ⟨rfl, rfl⟩ |
            ⟨l, l', ls, ls', rfl, rfl, hSame, _, hMore⟩
          · cases hFramed
          · cases segmentCase l with
            | plain segment hPlain hKind hNests =>
                have hNot : ∀ next,
                    Before.admitsBreak ⟨l.kind, true⟩ next = false := by
                  intro next
                  unfold plainSegment? at hPlain
                  split at hPlain <;> rename_i hEq <;>
                    first | (rw [hEq]; rfl) | cases hPlain
                have hTaken := hPaired.take_one hRest hRest'
                  (hKind f layout ds) (hMore.tight hNot)
                have hPlain' : plainSegment? l' = some segment :=
                  (plainSegment?_eq hSame).trans hPlain
                exact (closedInside_cons (ih _ _ hTaken)
                  (Alike.refl segment)).of_eq
                  (segmentsFor_of_plain hRest hPlain)
                  (segmentsFor_of_plain hRest' hPlain')
            | interpolation hPlain hKind =>
                have hPlain' : plainSegment? l' = none :=
                  (plainSegment?_eq hSame).trans hPlain
                have hNode := interpolation hExpr l.span l'.span
                  hPaired hRest hRest' hKind hMore
                have hMirrors : Mirrors deep (closedInside ds)
                    (do
                      let node ← Parse.interpolation expr l.span
                      let i ← Parse.segmentsFor expr k
                        (span.merge node.span)
                      return { i with
                        segments := .interpolation node :: i.segments })
                    (do
                      let node ← Parse.interpolation expr' l'.span
                      let i ← Parse.segmentsFor expr' m
                        (span'.merge node.span)
                      return { i with
                        segments := .interpolation node :: i.segments })
                    s s' := by
                  apply hNode.bind
                  rintro node node' t t' ⟨hAlike, hTaken⟩
                  exact closedInside_cons (ih _ _ hTaken)
                    (congrArg Segment.interpolation hAlike)
                exact hMirrors.of_eq
                  (segmentsFor_of_interpolation hRest hPlain hKind)
                  (segmentsFor_of_interpolation hRest' hPlain'
                    (hSame.kind.symm.trans hKind))
            | terminator f' layout' hPlain hKind =>
                have hPlain' : plainSegment? l' = none :=
                  (plainSegment?_eq hSame).trans hPlain
                by_cases hOwn : f' = f ∧ layout' = layout
                · have hNext : Nest.framed?
                      (.literal f layout :: ds) l.kind = some ds := by
                    rw [hKind]
                    exact if_pos hOwn
                  have hTaken := hPaired.take_one hRest hRest' hNext
                    (hMore.tight_of_endsOperand (by rw [hKind]; rfl))
                  have hPure : Mirrors deep (closedInside ds)
                      (Pure.pure ⟨[], span.merge l.span, true⟩)
                      (Pure.pure ⟨[], span'.merge l'.span, true⟩)
                      (s.advance 1) (s'.advance 1) :=
                    pure ⟨rfl, rfl, hTaken⟩
                  exact hPure.of_eq
                    (segmentsFor_of_terminator hRest hPlain hKind)
                    (segmentsFor_of_terminator hRest' hPlain'
                      (hSame.kind.symm.trans hKind))
                · have hNone : Nest.framed?
                      (.literal f layout :: ds) l.kind = none := by
                    rw [hKind]
                    exact if_neg hOwn
                  rw [Nest.framedBehind?_cons, hNone] at hFramed
                  cases hFramed
            | other hPlain hStart hTerminator hKind =>
                have hNone : Nest.framed?
                    (.literal f layout :: ds) l.kind = none :=
                  hKind f layout ds
                rw [Nest.framedBehind?_cons, hNone] at hFramed
                cases hFramed

end Mirrors

------------------------------------------------------------
-- Literals
------------------------------------------------------------

/- The indentation before a terminator is the same. -/
theorem Alike.textOf
    {i i' : Inside}
    (kind : TextKind)
    (heredoc : Bool)
    (hInside : Alike i i') :
    Alike (textOf kind heredoc i) (textOf kind heredoc i') := by
  have hLast := hInside.segments.getLast?
  have hSplit :
      (splitIndent heredoc i).1 = (splitIndent heredoc i').1 ∧
        Alike (splitIndent heredoc i).2 (splitIndent heredoc i').2 := by
    unfold splitIndent
    rw [hInside.closed_eq]
    rcases hLast.option_cases with
      ⟨hNone, hNone'⟩ | ⟨segment, segment', hSome, hSome', hSegment⟩
    · rw [hNone, hNone']
      exact ⟨rfl, hInside.segments⟩
    · rw [hSome, hSome']
      cases segment with
      | indent blanks =>
          cases segment' with
          | indent blanks' =>
              cases hSegment
              dsimp only
              split
              · exact ⟨rfl, hInside.segments.dropLast⟩
              · exact ⟨rfl, hInside.segments⟩
          | _ => cases hSegment
      | _ =>
          cases segment' with
          | indent blanks => cases hSegment
          | _ => exact ⟨rfl, hInside.segments⟩
  refine Alike.mk ?_ rfl
  rw [hSplit.1]
  exact congrArg (fun ss => (⟨kind, heredoc, _, ss⟩ : Text Node))
    hSplit.2

theorem promoterText_eq
    (hKind : l.kind = l'.kind) :
    promoterText (some l') = promoterText (some l) := by
  simp only [promoterText, hKind]

theorem heredocStart_of_cons
    (hRest : s.rest = l :: ls)
    (hKind : l.kind = .endOfLine) :
    heredocStart s = ((), s.advance 1) := by
  have hLine : lineLength s.rest = 0 := by
    simp [lineLength, runLength, hRest, hKind, isLineEnd]
  rw [heredocStart_apply, hLine]
  rfl

/- In a text in order the line of a promoter holds nothing else. -/
theorem Paired.textStart
    {f : Family}
    {layout : Layout}
    (hPaired : Paired (promoted f layout :: ds) Tight s s') :
    Paired (.literal f layout :: ds) Tight
      (textStart (layout == .heredoc) s)
      (textStart (layout == .heredoc) s') := by
  cases layout with
  | quoted => exact hPaired
  | heredoc =>
      have hTight := hPaired.place
      have hFramed := hPaired.framed
      have hFaultless := hPaired.faultless
      generalize hRest : s.rest = ms at *
      generalize hRest' : s'.rest = ms' at *
      rcases hTight.cases with
        ⟨rfl, rfl⟩ |
        ⟨l, l', ls, ls', rfl, rfl, hSame, _, hMore⟩
      · cases hFramed
      · have hHead : l.kind.isFaulty = false :=
          hFaultless l List.mem_cons_self
        change (Nest.onPromoterLine? f ds l.kind).bind _ = _
          at hFramed
        have hKind : l.kind = .endOfLine := by
          cases hKind : l.kind <;> rw [hKind] at hFramed hHead <;>
            first | rfl | cases hFramed | cases hHead
        have hTaken : Paired (.literal f .heredoc :: ds) Tight
            (s.advance 1) (s'.advance 1) := by
          apply hPaired.take_one hRest hRest'
          · rw [hKind]
            rfl
          · apply hMore.tight
            intro next
            rw [hKind]
            rfl
        change Paired _ _ (heredocStart s).2 (heredocStart s').2
        rw [heredocStart_of_cons hRest hKind,
          heredocStart_of_cons hRest' (hSame.kind.symm.trans hKind)]
        exact hTaken

theorem Escapes.poisonedIf
    {t t' : ParseState}
    (c c' : Bool)
    (hEscapes : Escapes deep t t') :
    Escapes deep (poisonedIf c t) (poisonedIf c' t') := by
  cases c <;> cases c' <;> exact hEscapes

namespace Mirrors

variable {expr expr' : ExpressionParser}
variable [∀ precedence context, Retains (expr precedence context)]
variable [∀ precedence context, Retains (expr' precedence context)]

theorem text
    {f : Family}
    {layout : Layout}
    (hExpr : Mirrored deep expr expr')
    (hPaired : Paired ds Heads s s')
    (hCode : ds.isCode = true)
    (hRest : s.rest = l :: ls)
    (hKind : l.kind = .promoter f layout) :
    Mirrors deep (alike ds Tight) (Parse.text expr)
      (Parse.text expr') s s' := by
  have hHeads := hPaired.place
  generalize hRest' : s'.rest = ms' at *
  rw [hRest] at hHeads
  cases hHeads with
  | @cons _ l' _ ls' hSame hMore =>
      have hNext : ds.framed? l.kind =
          some (promoted f layout :: ds) := by
        rw [hKind, Nest.framed?_eq_next? (.inr _),
          Nest.next?_of_isCode _ hCode, Nest.inCode?,
          opener?_promoter]
        · rfl
        · rw [Kind.isUnframed, opener?_promoter]
          cases layout <;> rfl
      have hTight : Tight ls ls' := by
        apply hMore.tight
        intro next
        rw [hKind]
        rfl
      have hStart := (hPaired.take_one hRest hRest' hNext
        hTight).textStart
      rw [← promoterText_of_promoter hKind] at hStart
      unfold Mirrors
      rw [text_of_cons hRest, text_of_cons hRest',
        promoterText_eq hSame.kind]
      rcases segmentsFor l.span l'.span hExpr hStart with
        hEscapes | ⟨hInside, hClosed, hPaired'⟩
      · exact .inl (hEscapes.poisonedIf _ _)
      · right
        refine ⟨hInside.textOf _ _, ?_⟩
        have hClosed' := hInside.closed_eq.symm.trans hClosed
        dsimp only
        rw [hClosed, hClosed']
        exact hPaired'

theorem textNode
    {f : Family}
    {layout : Layout}
    (hExpr : Mirrored deep expr expr')
    (hPaired : Paired ds Heads s s')
    (hCode : ds.isCode = true)
    (hRest : s.rest = l :: ls)
    (hKind : l.kind = .promoter f layout) :
    Mirrors deep (alike ds Tight) (Parse.textNode expr)
      (Parse.textNode expr') s s' := by
  apply (text hExpr hPaired hCode hRest hKind).bind
  rintro ⟨t, span⟩ ⟨t', span'⟩ u u' ⟨hText, hTight⟩
  refine pure ⟨?_, hTight⟩
  change unplaced _ = unplaced _
  simp [show unplaced t = unplaced t' from hText.fst]

end Mirrors

end ElixirReader
