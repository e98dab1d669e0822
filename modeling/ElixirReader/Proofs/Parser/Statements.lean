import ElixirReader.Proofs.Parser.Primitives

/-
  This file shows how statements end. A statement always
  takes a lexeme. Whatever is wrong with it, the next one
  starts with nothing open, at the end of the stretch that the
  statements stand in or before.

  Key definitions include:
    * `Sound`
    * `Stops`

  Main declarations:
    * `exists_of_recoveryLength`
    * `finishStatement_eq`
    * `within_finishStatement`
    * `Walk.finishStatement`
    * `Walk.statements`
    * `within_statements`
-/

namespace ElixirReader

open Parse

variable {α β : Type}
variable {h : Setting}
variable {inside : Bool}
variable {n : Nat}
variable {s s' : ParseState}
variable {expr : ExpressionParser}
variable {stop : Kind → Bool}

------------------------------------------------------------
-- Parsers for expressions
------------------------------------------------------------

/-
  A parser for expressions that keeps to its own side of
  delimiters, and that finds an error where nothing is left.
-/
structure Sound
    (n : Nat)
    (expr : ExpressionParser) : Prop where
  run : ∀ (h : Setting) (inside : Bool)
    (precedence : Nat) (context : Context) (s : ParseState),
    Run h n inside (expr precedence context)
      (expr precedence context) s
  fails : ∀ (precedence : Nat) (context : Context)
    (s : ParseState),
    s.rest = [] → Fails (expr precedence context) s

/- Any setting will do for what a part does to the state. -/
def Setting.any : Setting :=
  ⟨none, [], 0, 0, [], Span.none, false, false⟩

theorem Sound.takes
    (hExpr : Sound n expr)
    (precedence : Nat)
    (context : Context)
    (s : ParseState) :
    ∃ taken, Takes n taken s (expr precedence context s).2 :=
  (hExpr.run .any false precedence context s).takes

/- Where no lexeme is left, none is left behind an expression. -/
theorem Sound.rest_eq_nil
    (hExpr : Sound n expr)
    (precedence : Nat)
    (context : Context)
    (hRest : s.rest = []) :
    (expr precedence context s).2.rest = [] := by
  rcases hExpr.takes precedence context s with ⟨taken, hTakes⟩
  have hAll := hTakes.rest
  rw [hRest] at hAll
  exact (List.append_eq_nil_iff.mp hAll.symm).2

------------------------------------------------------------
-- Recovery
------------------------------------------------------------

/- What is behind a stretch starts where statements may end. -/
def Stops
    (stop : Kind → Bool) : List Lexeme → Prop
| [] => True
| l :: _ => (isSeparator l.kind || stop l.kind) = true

/-
  Recovery goes on where everything is closed that is open,
  and no further than to the end of a balanced stretch.
-/
theorem exists_of_recoveryLength
    {ds : Nest}
    {ls after : List Lexeme}
    (hBehind : ds.behind? ls = some [])
    (hAfter : Stops stop after) :
    ∃ front back,
      ls = front ++ back ∧
        recoveryLength stop ds.length (ls ++ after) =
          front.length ∧
        Nest.behind? [] back = some [] := by
  induction ls generalizing ds with
  | nil =>
      cases hBehind
      refine ⟨[], [], rfl, ?_, rfl⟩
      cases after with
      | nil => rfl
      | cons l ls =>
          change (_ || _) = true at hAfter
          simp only [List.nil_append, List.length_nil,
            recoveryLength, hAfter, and_self, if_true]
  | cons l ls ih =>
      rcases Nest.exists_of_behind?_cons hBehind with
        ⟨es, hNext, hRest⟩
      by_cases hEnds :
          ds.length = 0 ∧ (isSeparator l.kind || stop l.kind) = true
      · have hNil := List.length_eq_zero_iff.mp hEnds.1
        subst hNil
        refine ⟨[], l :: ls, rfl, ?_, hBehind⟩
        rw [List.cons_append, recoveryLength, if_pos hEnds]
        rfl
      · rcases ih hRest with
          ⟨front, back, rfl, hLength, hBack⟩
        refine ⟨l :: front, back, rfl, ?_, hBack⟩
        rw [List.cons_append, recoveryLength, if_neg hEnds,
          ← Nest.length_of_next? hNext, hLength,
          List.length_cons, Nat.add_comm]

/- What some lexemes leave open is as deep as it is counted. -/
theorem foldl_nesting
    {ds es : Nest}
    {ls : List Lexeme}
    (hBehind : ds.behind? ls = some es) :
    ls.foldl (fun depth l => l.kind.nesting depth) ds.length =
      es.length := by
  induction ls generalizing ds with
  | nil =>
      cases hBehind
      rfl
  | cons l ls ih =>
      rcases Nest.exists_of_behind?_cons hBehind with
        ⟨fs, hNext, hRest⟩
      rw [List.foldl_cons, ← Nest.length_of_next? hNext]
      exact ih hRest

theorem recoveryLength_le
    (stop : Kind → Bool)
    (depth : Nat)
    (ls : List Lexeme) :
    recoveryLength stop depth ls ≤ ls.length := by
  induction ls generalizing depth with
  | nil => exact Nat.le_refl 0
  | cons l ls ih =>
      rw [recoveryLength]
      split
      · exact Nat.zero_le _
      · have hLe := ih (l.kind.nesting depth)
        rw [List.length_cons]
        omega

/- Recovery goes on where statements may end. -/
theorem stops_drop_recoveryLength
    (stop : Kind → Bool)
    (depth : Nat)
    (ls : List Lexeme) :
    Stops stop (ls.drop (recoveryLength stop depth ls)) := by
  induction ls generalizing depth with
  | nil => exact True.intro
  | cons l ls ih =>
      rw [recoveryLength]
      split
      · rename_i hEnds
        exact hEnds.2
      · rw [Nat.add_comm, List.drop_succ_cons]
        exact ih _

/- The state in which recovery goes on. -/
def recovered
    (stop : Kind → Bool)
    (start : List Lexeme)
    (s : ParseState) : ParseState :=
  if s.poisoned then
    { s.advance (recoveryLength stop
        (openDepth (takenSince start s.rest)) s.rest) with
      poisoned := false }
  else s

theorem recover_apply
    (stop : Kind → Bool)
    (start : List Lexeme)
    (s : ParseState) :
    recover stop start s = ((), recovered stop start s) := by
  unfold recover recovered
  cases hPoisoned : s.poisoned with
  | false =>
      change (if s.poisoned = true then _ else _ : Parse Unit) s = _
      rw [hPoisoned]
      rfl
  | true =>
      change (if s.poisoned = true then _ else _ : Parse Unit) s = _
      rw [hPoisoned]
      rfl

theorem poisoned_recovered
    (stop : Kind → Bool)
    (start : List Lexeme)
    (s : ParseState) :
    (recovered stop start s).poisoned = false := by
  unfold recovered
  split
  · rfl
  · rename_i hPoisoned
    simpa using hPoisoned

/- Forgetting about poison takes no lexemes. -/
theorem Moves.setPoisoned
    {taken : List Lexeme}
    (hMoves : Moves n taken s s')
    (b : Bool) :
    Moves n taken s { s' with poisoned := b } :=
  ⟨hMoves.rest, hMoves.last, hMoves.before, hMoves.errors,
    hMoves.active, hMoves.cutShort, hMoves.halted,
    hMoves.deepest⟩

theorem moves_recovered
    (n : Nat)
    (stop : Kind → Bool)
    (start : List Lexeme)
    (s : ParseState) :
    ∃ taken, Moves n taken s (recovered stop start s) := by
  unfold recovered
  split
  · exact ⟨_, (Steady.advance n _ s).toMoves.setPoisoned false⟩
  · exact ⟨[], Moves.refl n s⟩

/-
  Behind a faulty statement that started with nothing open,
  nothing is open.
-/
theorem within_recovered
    {m : Nat}
    {taken after : List Lexeme}
    {start : ParseState}
    (hMoves : Moves m taken start s)
    (hStart : Within [] after start)
    (hAfter : Stops stop after)
    (hWithin : ∃ ds, Within ds after s ∧
      (s.poisoned = false → ds = [])) :
    Within [] after (recovered stop start.rest s) := by
  rcases hWithin with ⟨ds, ⟨ls, hRest, hBehind⟩, hSame⟩
  cases hPoisoned : s.poisoned with
  | false =>
      rw [hSame hPoisoned] at hBehind
      unfold recovered
      rw [if_neg (by simp [hPoisoned])]
      exact ⟨ls, hRest, hBehind⟩
  | true =>
      rcases hStart with ⟨all, hAll, hBalanced⟩
      have hEq : all ++ after = taken ++ ls ++ after := by
        rw [← hAll, hMoves.rest, hRest, List.append_assoc]
      rw [List.append_cancel_right hEq] at hBalanced
      rcases Nest.exists_of_behind?_append hBalanced with
        ⟨es, hTaken, hLs⟩
      have hDepth :
          openDepth (takenSince start.rest s.rest) =
            es.length := by
        rw [hMoves.takenSince_eq]
        exact foldl_nesting hTaken
      rcases exists_of_recoveryLength hLs hAfter with
        ⟨front, back, hSplit, hLength, hBack⟩
      refine ⟨back, ?_, hBack⟩
      unfold recovered
      rw [if_pos hPoisoned, hDepth]
      change s.rest.drop _ = _
      rw [hRest, hLength, hSplit, List.append_assoc,
        List.drop_left]

------------------------------------------------------------
-- Ends of statements
------------------------------------------------------------

theorem boundaryError?_of_nil
    (stop : Kind → Bool)
    (hRest : s.rest = []) :
    boundaryError? stop s = (none, s) := by
  rcases s with ⟨rest, _⟩
  cases hRest
  rfl

theorem boundaryError?_of_cons
    {l : Lexeme}
    {ls : List Lexeme}
    (stop : Kind → Bool)
    (hRest : s.rest = l :: ls) :
    boundaryError? stop s =
      if (isSeparator l.kind || stop l.kind || s.poisoned) = true
      then (none, s)
      else
        (some (Node.failure
            (ParseFault.unexpectedToken l.describe).message
            l.span),
          s.report (.unexpectedToken l.describe) l.span) := by
  rcases s with ⟨rest, before, last, errors, poisoned, _⟩
  cases hRest
  change (if _ then _ else _ : Parse _) _ = _
  split <;> rfl

/- A statement in order ends where a statement may end. -/
theorem boundaryError?_cases
    (stop : Kind → Bool)
    (s : ParseState) :
    (boundaryError? stop s = (none, s) ∧
        (s.poisoned = false → Stops stop s.rest)) ∨
      ∃ e fault span,
        boundaryError? stop s = (e, s.report fault span) ∧
          s.poisoned = false := by
  cases hRest : s.rest with
  | nil =>
      left
      exact ⟨boundaryError?_of_nil stop hRest,
        fun _ => True.intro⟩
  | cons l ls =>
      rw [boundaryError?_of_cons stop hRest]
      by_cases hEnds :
          (isSeparator l.kind || stop l.kind || s.poisoned) = true
      · left
        rw [if_pos hEnds]
        refine ⟨rfl, ?_⟩
        intro hClean
        simpa [Stops, hClean] using hEnds
      · right
        rw [if_neg hEnds]
        refine ⟨_, _, _, rfl, ?_⟩
        cases hPoisoned : s.poisoned with
        | false => rfl
        | true => simp [hPoisoned] at hEnds

theorem Takes.boundaryError?
    (n : Nat)
    (stop : Kind → Bool)
    (s : ParseState) :
    ∃ taken, Takes n taken s (Parse.boundaryError? stop s).2 := by
  rcases boundaryError?_cases stop s with
    ⟨hEq, _⟩ | ⟨e, fault, span, hEq, _⟩
  · rw [hEq]
    exact ⟨[], Takes.refl n s⟩
  · rw [hEq]
    exact ⟨[], Takes.report n fault span s⟩

/- Where the smaller text ends, statements may end. -/
def Setting.StopsAt
    (h : Setting)
    (stop : Kind → Bool) : Prop :=
  ∀ l ls, h.Ends l ls → (isSeparator l.kind || stop l.kind) = true

theorem Run.boundaryError?
    (hStopsAt : inside = true ∨ h.StopsAt stop) :
    Run h n inside (Parse.boundaryError? stop)
      (Parse.boundaryError? stop) s := by
  constructor
  · exact Takes.boundaryError? n stop s
  · intro hAgrees
    cases hRest : s.rest with
    | cons l ls =>
        have hPlace :
            (h.place s).rest = l :: (ls ++ h.after) := by
          simp [Setting.place, hRest]
        rw [boundaryError?_of_cons stop hRest,
          boundaryError?_of_cons stop hPlace, h.place_report]
        change (if (_ || _ || s.poisoned) = true then _ else _) = _
        split <;> rfl
    | nil =>
        rw [boundaryError?_of_nil stop hRest]
        rcases hAgrees with hWhole | ⟨hClean, _⟩
        · apply boundaryError?_of_nil
          rw [hWhole.place_eq.1, hRest]
        · rcases hClean.after_eq hRest with ⟨l, ls, hEnds⟩
          have hPlace : (h.place s).rest = l :: ls := by
            simp [Setting.place, hRest, hEnds.after]
          rcases hStopsAt with hInside | hStopsAt
          · subst hInside
            exact absurd hRest hClean.rest_ne_nil
          · rw [boundaryError?_of_cons stop hPlace, if_pos]
            rw [hStopsAt l ls hEnds, Bool.true_or]

/- The state behind a statement that has to take a lexeme. -/
def progressed
    (stop : Kind → Bool)
    (start : List Lexeme)
    (s : ParseState) : ParseState :=
  if s.rest.length = start.length ∧
      s.rest.head?.any (fun l => !stop l.kind) = true
  then s.advance 1
  else s

theorem ensureProgress_apply
    (stop : Kind → Bool)
    (start : List Lexeme)
    (s : ParseState) :
    ensureProgress stop start s =
      ((), progressed stop start s) := by
  unfold ensureProgress progressed
  change (if _ then _ else _ : Parse Unit) s = _
  split <;> rfl

theorem finishStatement_apply
    (stop : Kind → Bool)
    (start : List Lexeme)
    (s : ParseState) :
    finishStatement stop start s =
      ((boundaryError? stop s).1,
        progressed stop start
          (recovered stop start (boundaryError? stop s).2)) := by
  change ((boundaryError? stop s).1,
    (ensureProgress stop start
      (recover stop start (boundaryError? stop s).2).2).2) = _
  rw [recover_apply, ensureProgress_apply]

/- Where a statement may start. -/
def Starts
    (stop : Kind → Bool) : List Lexeme → Prop
| [] => False
| l :: _ => (isSeparator l.kind || stop l.kind) = false

theorem Starts.length_pos
    {ls : List Lexeme}
    (hStarts : Starts stop ls) :
    0 < ls.length := by
  cases ls with
  | nil => exact hStarts.elim
  | cons l ls => exact Nat.succ_pos _

theorem not_stops_of_starts
    {ls : List Lexeme}
    (hStarts : Starts stop ls) :
    ¬ Stops stop ls := by
  cases ls with
  | nil => exact hStarts.elim
  | cons l ls =>
      intro hStops
      change (_ || _) = false at hStarts
      change (_ || _) = true at hStops
      rw [hStarts] at hStops
      cases hStops

theorem stops_recovered
    (start : List Lexeme)
    (hStops : s.poisoned = false → Stops stop s.rest) :
    Stops stop (recovered stop start s).rest := by
  unfold recovered
  split
  · exact stops_drop_recoveryLength stop _ s.rest
  · rename_i hPoisoned
    exact hStops (by simpa using hPoisoned)

/- With a part of a statement taken, no lexeme has to be. -/
theorem progressed_of_stops
    {m : Nat}
    {taken : List Lexeme}
    {start : ParseState}
    (hMoves : Moves m taken start s)
    (hStarts : Starts stop start.rest)
    (hStops : Stops stop s.rest) :
    s.rest.length < start.rest.length ∧
      progressed stop start.rest s = s := by
  have hLess : s.rest.length < start.rest.length := by
    have hLength := hMoves.length_rest
    cases taken with
    | cons l ls =>
        rw [List.length_cons] at hLength
        omega
    | nil =>
        exfalso
        apply not_stops_of_starts hStarts
        rw [hMoves.rest]
        exact hStops
  refine ⟨hLess, ?_⟩
  unfold progressed
  rw [if_neg]
  intro hStuck
  omega

/-
  A statement ends where statements may end, with fewer
  lexemes left than where it started.
-/
theorem finishStatement_eq
    {m : Nat}
    {taken : List Lexeme}
    {start : ParseState}
    (hMoves : Moves m taken start s)
    (hStarts : Starts stop start.rest) :
    (finishStatement stop start.rest s).2 =
        recovered stop start.rest (boundaryError? stop s).2 ∧
      Stops stop (finishStatement stop start.rest s).2.rest ∧
      (finishStatement stop start.rest s).2.rest.length <
        start.rest.length ∧
      ∃ more, Moves m more s
        (finishStatement stop start.rest s).2 := by
  rcases Takes.boundaryError? m stop s with ⟨none, hTakes⟩
  rcases moves_recovered m stop start.rest
    (boundaryError? stop s).2 with ⟨more, hMore⟩
  have hStops :
      Stops stop (recovered stop start.rest
        (boundaryError? stop s).2).rest := by
    apply stops_recovered
    intro hClean
    rcases boundaryError?_cases stop s with
      ⟨hEq, hStops⟩ | ⟨e, fault, span, hEq, _⟩
    · rw [hEq] at hClean ⊢
      exact hStops hClean
    · rw [hEq] at hClean
      rw [poisoned_report] at hClean
      cases hClean
  have hRest := hTakes.toMoves.trans hMore
  have hAll := hMoves.trans hRest
  rcases progressed_of_stops hAll hStarts hStops with
    ⟨hLess, hIdle⟩
  have hEq :
      (finishStatement stop start.rest s).2 =
        recovered stop start.rest (boundaryError? stop s).2 := by
    rw [finishStatement_apply]
    exact hIdle
  rw [hEq]
  exact ⟨rfl, hStops, hLess, _, hRest⟩

/-
  Behind a statement that started with nothing open, nothing
  is open, and it is done with its errors.
-/
theorem within_finishStatement
    {m : Nat}
    {taken after : List Lexeme}
    {start : ParseState}
    (hMoves : Moves m taken start s)
    (hStarts : Starts stop start.rest)
    (hStart : Within [] after start)
    (hAfter : Stops stop after)
    (hWithin : ∃ ds, Within ds after s ∧
      (s.poisoned = false → ds = [])) :
    Within [] after (finishStatement stop start.rest s).2 ∧
      (finishStatement stop start.rest s).2.poisoned =
        false := by
  rw [(finishStatement_eq hMoves hStarts).1]
  refine ⟨?_, poisoned_recovered _ _ _⟩
  rcases boundaryError?_cases stop s with
    ⟨hEq, _⟩ | ⟨e, fault, span, hEq, _⟩
  · rw [hEq]
    exact within_recovered hMoves hStart hAfter hWithin
  · rw [hEq]
    have hReport := Takes.report m fault span s
    apply within_recovered
      (hMoves.trans hReport.toMoves) hStart hAfter
    rcases hWithin with ⟨ds, hDs, _⟩
    refine ⟨ds, hDs.congr hReport.rest.symm, ?_⟩
    intro hClean
    rw [poisoned_report] at hClean
    cases hClean

/- A statement in order is left as it is. -/
theorem finishStatement_of_clean
    {start : List Lexeme}
    (hClean : s.poisoned = false)
    (hBoundary : boundaryError? stop s = (none, s))
    (hLess : s.rest.length < start.length) :
    finishStatement stop start s = (none, s) := by
  have hRecovered : recovered stop start s = s := by
    unfold recovered
    rw [if_neg (by simp [hClean])]
  rw [finishStatement_apply, hBoundary]
  change (none, progressed stop start (recovered stop start s)) = _
  rw [hRecovered]
  unfold progressed
  rw [if_neg (by omega)]

theorem Setting.IsWhole.place_recovered
    (hWhole : h.IsWhole s)
    (start : List Lexeme) :
    recovered stop start (h.place s) =
      h.place (recovered stop start s) := by
  unfold recovered
  rw [hWhole.place_eq.1]
  change (if s.poisoned = true then _ else _) = _
  split
  · rw [h.place_advance (recoveryLength_le _ _ _)]
    rfl
  · rfl

theorem Setting.IsWhole.place_progressed
    (hWhole : h.IsWhole s)
    (start : List Lexeme) :
    progressed stop start (h.place s) =
      h.place (progressed stop start s) := by
  unfold progressed
  rw [hWhole.place_eq.1]
  split
  · rename_i hStuck
    rw [h.place_advance]
    cases hRest : s.rest with
    | nil =>
        rw [hRest] at hStuck
        cases hStuck.2
    | cons l ls => simp
  · rfl

/- A statement that shows no error is left as it is. -/
theorem boundaryError?_of_errors_eq
    {taken : List Lexeme}
    {start : ParseState}
    (hMoves : Moves n taken start s)
    (hStarts : Starts stop start.rest)
    (hClean : s.poisoned = false)
    (hErrors :
      (finishStatement stop start.rest s).2.errors = s.errors) :
    boundaryError? stop s = (none, s) ∧
      s.rest.length < start.rest.length := by
  rcases boundaryError?_cases stop s with
    ⟨hEq, hStops⟩ | ⟨e, fault, span, hEq, _⟩
  · exact ⟨hEq,
      (progressed_of_stops hMoves hStarts (hStops hClean)).1⟩
  · exfalso
    rw [(finishStatement_eq hMoves hStarts).1, hEq] at hErrors
    rcases moves_recovered n stop start.rest
      (s.report fault span) with ⟨more, hMore⟩
    have hReport := Takes.report n fault span s
    have hSame := hReport.toMoves.errors_eq hMore hErrors
    exact errors_report_ne fault span hClean hSame.1

theorem Walk.finishStatement
    {taken : List Lexeme}
    {start : ParseState}
    (hMoves : Moves n taken start s)
    (hStarts : Starts stop start.rest)
    (hStopsAt : inside = true ∨ h.StopsAt stop) :
    Walk h n inside (Parse.finishStatement stop start.rest)
      (Parse.finishStatement stop (start.rest ++ h.after))
      s := by
  have hBoundary :
      Run h n inside (Parse.boundaryError? stop)
        (Parse.boundaryError? stop) s :=
    Run.boundaryError? hStopsAt
  refine ⟨(finishStatement_eq hMoves hStarts).2.2.2, ?_, ?_⟩
  · rintro ⟨ds, after, hFits, hIsCode⟩ hErrors
    rcases boundaryError?_of_errors_eq hMoves hStarts
      hFits.poisoned hErrors with ⟨hNone, hLess⟩
    rw [finishStatement_of_clean hFits.poisoned hNone hLess]
    exact ⟨ds, after, hFits, hIsCode⟩
  · rintro (hWhole | ⟨hClean, hErrors⟩)
    · have hPlace := hBoundary.tracks (.inl hWhole)
      rcases hBoundary.takes with ⟨none, hTakes⟩
      have hWhole' := hWhole.step hTakes.toMoves
      have hWhole'' :
          h.IsWhole (recovered stop start.rest
            (Parse.boundaryError? stop s).2) := by
        rcases moves_recovered n stop start.rest
          (Parse.boundaryError? stop s).2 with ⟨more, hMore⟩
        exact hWhole'.step hMore
      rw [hWhole.1, List.append_nil, finishStatement_apply,
        finishStatement_apply, hPlace]
      change (_, progressed stop start.rest (recovered stop
        start.rest (h.place _))) = _
      rw [hWhole'.place_recovered, hWhole''.place_progressed]
    · have hUnpoisoned : s.poisoned = false := by
        rcases hClean with ⟨ds, after, hFits, hIsCode⟩
        exact hFits.poisoned
      rcases boundaryError?_of_errors_eq hMoves hStarts
        hUnpoisoned hErrors with ⟨hNone, hLess⟩
      have hPlace := hBoundary.tracks
        (.inr ⟨hClean, by rw [hNone]⟩)
      rw [hNone] at hPlace
      rw [finishStatement_of_clean hUnpoisoned hNone hLess]
      have hUnpoisoned' : (h.place s).poisoned = false :=
        hUnpoisoned
      apply finishStatement_of_clean hUnpoisoned' hPlace
      change (s.rest ++ h.after).length < _
      rw [List.length_append, List.length_append]
      omega

------------------------------------------------------------
-- Lists of statements
------------------------------------------------------------

theorem Walk.pure
    (a : α) :
    Walk h n inside (pure a) (pure a) s :=
  (Run.pure a).walk

theorem Walk.bind_rest
    {f g : List Lexeme → Parse α}
    (hWalk :
      Walk h n inside (f s.rest) (g (s.rest ++ h.after)) s) :
    Walk h n inside (rest >>= f) (rest >>= g) s :=
  ⟨hWalk.moves, hWalk.clean, hWalk.tracks⟩

/- Inside of delimiters both runs see the next lexeme. -/
theorem Walk.bind_peek
    {f g : Option Lexeme → Parse α}
    (hWalk :
      Walk h n true (f s.rest.head?) (g s.rest.head?) s) :
    Walk h n true (peek >>= f) (peek >>= g) s := by
  refine ⟨hWalk.moves, hWalk.clean, ?_⟩
  intro hAgrees
  have hSame := hAgrees.sees.head?_append_of_inside
  change g (s.rest ++ h.after).head? (h.place s) = _
  rw [hSame]
  exact hWalk.tracks hAgrees

theorem length_rest_skipSeparators
    (s : ParseState) :
    (skipSeparators s).2.rest.length ≤ s.rest.length := by
  change (s.rest.drop _).length ≤ _
  rw [List.length_drop]
  omega

theorem Setting.Sees.runLength_isSeparator_append
    (hSees : h.Sees true s) :
    runLength isSeparator (s.rest ++ h.after) =
      runLength isSeparator s.rest := by
  rcases hSees with hWhole | hClean
  · rw [hWhole.1, List.append_nil]
  · unfold runLength
    rw [takeWhile_append_of_exists]
    exact hClean.exists_not_isSeparator

/- Separators in front belong to a stretch that none is behind. -/
theorem Within.skipSeparators
    {ds : Nest}
    {after : List Lexeme}
    (hWithin : Within ds after s)
    (hCode : ds.isCode = true)
    (hAfter : ∀ l, after.head? = some l →
      isSeparator l.kind = false) :
    Within ds after (Parse.skipSeparators s).2 := by
  have hMoves := (Steady.advance 0
    (runLength isSeparator s.rest) s).toMoves
  have hKinds :
      ∀ l ∈ s.rest.take (runLength isSeparator s.rest),
        isSeparator l.kind = true :=
    fun l hMem => of_mem_take_runLength hMem
  rcases hWithin.take_of_ne hMoves.rest (by
      intro l hMem hHead
      have hNot := hAfter l hHead
      rw [hKinds l hMem] at hNot
      cases hNot) with ⟨es, hBehind, hWithin'⟩
  have hSame := Nest.behind?_of_isFlat
    (fun l hMem => isFlat_of_isSeparator (hKinds l hMem))
    hCode hBehind
  rw [hSame] at hWithin'
  exact hWithin'

theorem Walk.skipSeparators :
    Walk h n true Parse.skipSeparators Parse.skipSeparators
      s := by
  have hMoves := (Steady.advance n
    (runLength isSeparator s.rest) s).toMoves
  refine ⟨⟨_, hMoves⟩, ?_, ?_⟩
  · rintro ⟨ds, after, hFits, hIsCode⟩ _
    have hFaultless := hFits.faultless
    rw [hMoves.rest, Faultless.append_iff] at hFaultless
    refine ⟨ds, after, ⟨hFits.bounds, ?_, hFits.poisoned,
      hFaultless.2⟩, hIsCode⟩
    apply hFits.within.skipSeparators hIsCode
    intro l hHead
    cases hFits.bounds with
    | ends _ _ _ _ => cases hHead
    | closer m ms hBarrier hKind =>
        cases hHead
        exact isSeparator_of_isBarrier hBarrier hKind
  · intro hAgrees
    change ((), (h.place s).advance
      (runLength isSeparator (s.rest ++ h.after))) = _
    rw [hAgrees.sees.runLength_isSeparator_append,
      h.place_advance (runLength_le_length _ _)]
    rfl

theorem rest_skipSeparators
    (s : ParseState) :
    (skipSeparators s).2.rest =
      s.rest.dropWhile (fun l => isSeparator l.kind) := by
  change s.rest.drop (runLength isSeparator s.rest) = _
  unfold runLength
  conv => lhs; arg 2; rw [← List.takeWhile_append_dropWhile
    (p := fun l => isSeparator l.kind) (l := s.rest)]
  rw [List.drop_left]

/- Behind the separators a statement starts, unless it is at a stop. -/
theorem starts_skipSeparators
    (hEnds : endsAt stop (skipSeparators s).2.rest.head? =
      false) :
    Starts stop (skipSeparators s).2.rest := by
  have hDrop := rest_skipSeparators s
  cases hRest : (skipSeparators s).2.rest with
  | nil =>
      rw [hRest] at hEnds
      cases hEnds
  | cons l ls =>
      rw [hRest] at hEnds hDrop
      have hHead :=
        List.head?_dropWhile_not
          (fun l : Lexeme => isSeparator l.kind) s.rest
      rw [← hDrop] at hHead
      change stop l.kind = false at hEnds
      change (_ || _) = false
      rw [hEnds, Bool.or_false]
      simpa using hHead

/- What a statement does to the state, and that it takes something. -/
theorem moves_statement
    (hExpr : Sound n expr)
    (hStarts : Starts stop s.rest) :
    (∃ taken, Moves n taken s (statement expr stop s).2) ∧
      (statement expr stop s).2.rest.length <
        s.rest.length := by
  rcases hExpr.takes 0 .statement s with ⟨taken, hTakes⟩
  rcases finishStatement_eq hTakes.toMoves hStarts with
    ⟨_, _, hLess, more, hMore⟩
  exact ⟨⟨_, hTakes.toMoves.trans hMore⟩, hLess⟩

theorem Walk.statement
    (hExpr : Sound n expr)
    (hStarts : Starts stop s.rest)
    (hStopsAt : inside = true ∨ h.StopsAt stop) :
    Walk h n inside (Parse.statement expr stop)
      (Parse.statement expr stop) s := by
  rcases hExpr.takes 0 .statement s with ⟨taken, hTakes⟩
  apply Walk.bind_rest
  apply (hExpr.run h inside 0 .statement s).walk.bind
  intro node s' hEq
  rw [hEq] at hTakes
  apply (Walk.finishStatement hTakes.toMoves hStarts
    hStopsAt).bind
  intro trailing s'' _
  exact Walk.pure _

/-
  Statements inside of delimiters. More lexemes than there are
  never are statements, so both runs may give up earlier.
-/
theorem Walk.statementsFor
    (hExpr : Sound n expr)
    {k m : Nat}
    (hBound : s.rest.length < k)
    (hBound' : s.rest.length + h.after.length < m) :
    Walk h n true (Parse.statementsFor expr stop k)
      (Parse.statementsFor expr stop m) s := by
  induction k generalizing m s with
  | zero => omega
  | succ k ih =>
      cases m with
      | zero => omega
      | succ m =>
          apply Walk.skipSeparators.bind
          intro _ s₁ hSkip
          have hLength := length_rest_skipSeparators s
          have hStarts := @starts_skipSeparators s stop
          rw [hSkip] at hLength hStarts
          apply Walk.bind_peek
          cases hEnds : endsAt stop s₁.rest.head? with
          | true => exact Walk.pure _
          | false =>
              have hStart := hStarts hEnds
              apply (Walk.statement hExpr hStart
                (.inl rfl)).bind
              intro node s₂ hStatement
              have hLess := (moves_statement hExpr hStart).2
              rw [hStatement] at hLess
              change s₂.rest.length < s₁.rest.length at hLess
              change s₁.rest.length ≤ s.rest.length at hLength
              apply (ih (by omega) (by omega)).bind
              intro nodes s₃ _
              exact Walk.pure _

theorem statementsFor_succ
    (k : Nat)
    (s : ParseState) :
    statementsFor expr stop (k + 1) s =
      (if endsAt stop (skipSeparators s).2.rest.head? then
        return []
      else do
        let node ← statement expr stop
        return node :: (← statementsFor expr stop k) :
        Parse _) (skipSeparators s).2 :=
  rfl

/- Statements end at a lexeme where they stop, or at the end. -/
theorem endsAt_statementsFor
    (hExpr : Sound n expr)
    {k : Nat}
    (hBound : s.rest.length < k) :
    endsAt stop (statementsFor expr stop k s).2.rest.head? =
      true := by
  induction k generalizing s with
  | zero => omega
  | succ k ih =>
      have hLength := length_rest_skipSeparators s
      have hStarts := @starts_skipSeparators s stop
      rw [statementsFor_succ]
      generalize (skipSeparators s).2 = s₁ at *
      cases hEnds : endsAt stop s₁.rest.head? with
      | true => exact hEnds
      | false =>
          have hLess :=
            (moves_statement hExpr (hStarts hEnds)).2
          exact @ih (statement expr stop s₁).2 (by omega)

/- Before a lexeme, statements end at a lexeme. -/
theorem exists_of_endsAt
    {l : Lexeme}
    {ls : List Lexeme}
    (hWithin : Within [] (l :: ls) s)
    (hEnds : endsAt stop s.rest.head? = true) :
    ∃ m ms, s.rest = m :: ms ∧ stop m.kind = true := by
  cases hRest : s.rest with
  | nil =>
      rcases hWithin with ⟨ms, hEq, _⟩
      rw [hRest] at hEq
      simp at hEq
  | cons m ms =>
      rw [hRest] at hEnds
      exact ⟨m, ms, rfl, hEnds⟩

/- Statements that start with nothing open, up to a barrier. -/
theorem within_statementsFor
    (hExpr : Sound n expr)
    {k : Nat}
    {l : Lexeme}
    {ls : List Lexeme}
    (hBound : s.rest.length < k)
    (hClean : s.poisoned = false)
    (hWithin : Within [] (l :: ls) s)
    (hBarrier : l.kind.isBarrier = true)
    (hStop : stop l.kind = true)
    (hSeparator : isSeparator l.kind = false) :
    Within [] (l :: ls) (statementsFor expr stop k s).2 ∧
      ∃ m ms, (statementsFor expr stop k s).2.rest = m :: ms ∧
        stop m.kind = true := by
  induction k generalizing s with
  | zero => omega
  | succ k ih =>
      have hLength := length_rest_skipSeparators s
      have hStarts := @starts_skipSeparators s stop
      have hWithin' := hWithin.skipSeparators rfl (by
        intro m hHead
        cases hHead
        exact hSeparator)
      have hClean' : (skipSeparators s).2.poisoned = false :=
        hClean
      rw [statementsFor_succ]
      generalize (skipSeparators s).2 = s₁ at *
      cases hEnds : endsAt stop s₁.rest.head? with
      | true =>
          exact ⟨hWithin', exists_of_endsAt hWithin' hEnds⟩
      | false =>
          have hStart := hStarts hEnds
          have hLess := (moves_statement hExpr hStart).2
          rcases hExpr.takes 0 .statement s₁ with
            ⟨taken, hTakes⟩
          rcases hTakes.within [] (l :: ls) hBarrier hWithin'
            with ⟨ds, hDs, _, hCode⟩
          have hFinish := within_finishStatement hTakes.toMoves
            hStart hWithin'
            (show Stops stop (l :: ls) by simp [Stops, hStop])
            ⟨ds, hDs, (hCode rfl).1⟩
          exact ih (s := (statement expr stop s₁).2)
            (by omega) hFinish.2 hFinish.1

/- Parsing apart from the statement around takes up no poison. -/
theorem isolated_apply
    (p : Parse α)
    (s : ParseState) :
    isolated p s =
      ((p { s with poisoned := false }).1,
        { (p { s with poisoned := false }).2 with
          poisoned := s.poisoned }) :=
  rfl

theorem Walk.isolated
    {p q : Parse α}
    (hWalk : ∀ s', s'.rest = s.rest →
      Walk h n inside p q s') :
    Walk h n inside (Parse.isolated p) (Parse.isolated q)
      s := by
  have hInner := hWalk { s with poisoned := false } rfl
  rcases hInner.moves with ⟨taken, hMoves⟩
  refine ⟨⟨taken, hMoves.rest, hMoves.last, hMoves.before,
    hMoves.errors, hMoves.active, hMoves.cutShort,
    hMoves.halted, hMoves.deepest⟩, ?_, ?_⟩
  · rintro ⟨ds, after, hFits, hIsCode⟩ hErrors
    have hSame : { s with poisoned := false } = s := by
      rw [← hFits.poisoned]
    rw [isolated_apply] at hErrors ⊢
    rw [hSame] at hErrors hInner ⊢
    have hClean := hInner.clean ⟨ds, after, hFits, hIsCode⟩ hErrors
    rcases hClean with ⟨ds', after', hFits', hIsCode'⟩
    have hSame' :
        { (p s).2 with poisoned := s.poisoned } = (p s).2 := by
      rw [hFits.poisoned, ← hFits'.poisoned]
    change h.Clean inside { (p s).2 with poisoned := s.poisoned }
    rw [hSame']
    exact ⟨ds', after', hFits', hIsCode'⟩
  · intro hAgrees
    have hInner' :
        h.Agrees inside { s with poisoned := false }
          (p { s with poisoned := false }).2 := by
      rcases hAgrees with hWhole | ⟨⟨ds, after, hFits, hIsCode⟩, hErrors⟩
      · exact .inl hWhole
      · exact .inr ⟨⟨ds, after, ⟨hFits.bounds, hFits.within,
          rfl, hFits.faultless⟩, hIsCode⟩, hErrors⟩
    have hTracks := hInner.tracks hInner'
    rw [isolated_apply, isolated_apply]
    change q { h.place s with poisoned := false } = _ at hTracks
    rw [hTracks]
    rfl

theorem Walk.statements
    (hExpr : Sound n expr) :
    Walk h n true (Parse.statements expr stop)
      (Parse.statements expr stop) s := by
  apply Walk.bind_rest
  apply Walk.isolated
  intro s' hRest
  apply Walk.statementsFor hExpr
  · rw [hRest]
    omega
  · rw [hRest, List.length_append]
    omega

/-
  Statements up to what closes a delimiter around them end
  right there.
-/
theorem within_statements
    (hExpr : Sound n expr)
    {l : Lexeme}
    {ls : List Lexeme}
    (hWithin : Within [] (l :: ls) s)
    (hBarrier : l.kind.isBarrier = true)
    (hStop : stop l.kind = true)
    (hSeparator : isSeparator l.kind = false) :
    Within [] (l :: ls) (statements expr stop s).2 ∧
      ∃ m ms, (statements expr stop s).2.rest = m :: ms ∧
        stop m.kind = true :=
  within_statementsFor hExpr
    (s := { s with poisoned := false })
    (Nat.lt_succ_self _) rfl hWithin hBarrier hStop hSeparator

end ElixirReader
