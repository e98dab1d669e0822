import ElixirReader.Proofs.Parser.Termination

/-
  This file says what a part of the parser makes of lexemes
  that are in order: it takes them, notes no error, and
  returns what is said about its result. An error of some bad
  sort may get in the way, and then it stays noted.

  Key definitions include:
    * `Grows`
    * `Stands`
    * `Yields`
    * `Steps`

  Main declarations:
    * `Yields.bind`
    * `Steps.bind`
    * `Yields.statement`
    * `Yields.statements`
    * `Yields.parseLexemes`
-/

namespace ElixirReader

open Parse

variable {α β : Type}
variable {bad : ParseError → Prop}
variable {ls mid back : List Lexeme}
variable {s : ParseState}

------------------------------------------------------------
-- Errors stay noted
------------------------------------------------------------

/- Errors are only added to those noted before. -/
def Grows
    (p : Parse α) : Prop :=
  ∀ s, s.errors <+: (p s).2.errors

theorem Grows.bind
    {p : Parse α}
    {f : α → Parse β}
    (hFirst : Grows p)
    (hSecond : ∀ a, Grows (f a)) :
    Grows (p >>= f) :=
  fun s => (hFirst s).trans (hSecond _ _)

theorem Grows.pure
    (a : α) :
    Grows (pure a : Parse α) :=
  fun _ => List.prefix_refl _

theorem Walk.grows
    {n : Nat}
    {p : Parse α}
    (hWalk : ∀ s, Walk .any n true p p s) :
    Grows p := by
  intro s
  rcases (hWalk s).moves with ⟨taken, hMoves⟩
  exact hMoves.errors

theorem Run.grows
    {n : Nat}
    {p : Parse α}
    (hRun : ∀ s, Run .any n true p p s) :
    Grows p :=
  Walk.grows fun s => (hRun s).walk

theorem Sound.grows
    {n : Nat}
    {expr : ExpressionParser}
    (hExpr : Sound n expr)
    (precedence : Nat)
    (context : Context) :
    Grows (expr precedence context) :=
  Run.grows (hExpr.run .any true precedence context)

------------------------------------------------------------
-- Lexemes in order
------------------------------------------------------------

/- Some lexemes are left, and no error has been noted. -/
structure Stands
    (ls : List Lexeme)
    (s : ParseState) : Prop where
  rest : s.rest = ls
  errors : s.errors = []
  poisoned : s.poisoned = false

/-
  From some lexemes to those behind them, a part of the parser
  returns what is said about its result, unless a bad error is
  noted.
-/
def Yields
    (bad : ParseError → Prop)
    (p : Parse α)
    (ls back : List Lexeme)
    (Result : α → Prop) : Prop :=
  ∀ s, Stands ls s →
    (∃ e ∈ (p s).2.errors, bad e) ∨
      Result (p s).1 ∧ Stands back (p s).2

/- From some lexemes to those behind them, nothing gets in the way. -/
def Steps
    (p : Parse α)
    (ls back : List Lexeme)
    (a : α) : Prop :=
  ∀ s, Stands ls s → (p s).1 = a ∧ Stands back (p s).2

variable {Result : α → Prop}

theorem Yields.pure
    {a : α}
    (hResult : Result a) :
    Yields bad (pure a) ls ls Result :=
  fun _ hStands => .inr ⟨hResult, hStands⟩

theorem Yields.mono
    {p : Parse α}
    {Result' : α → Prop}
    (hYields : Yields bad p ls back Result)
    (hResult : ∀ a, Result a → Result' a) :
    Yields bad p ls back Result' := by
  intro s hStands
  rcases hYields s hStands with hBad | ⟨hDone, hStands'⟩
  · exact .inl hBad
  · exact .inr ⟨hResult _ hDone, hStands'⟩

theorem Yields.bind
    {p : Parse α}
    {f : α → Parse β}
    {Last : β → Prop}
    (hFirst : Yields bad p ls mid Result)
    (hGrows : ∀ a, Grows (f a))
    (hSecond : ∀ a, Result a → Yields bad (f a) mid back Last) :
    Yields bad (p >>= f) ls back Last := by
  intro s hStands
  rcases hFirst s hStands with ⟨e, hMember, hBad⟩ | ⟨hDone, hStands'⟩
  · exact .inl ⟨e, (hGrows _ _).subset hMember, hBad⟩
  · exact hSecond _ hDone _ hStands'

theorem Steps.bind
    {p : Parse α}
    {f : α → Parse β}
    {Last : β → Prop}
    {a : α}
    (hFirst : Steps p ls mid a)
    (hSecond : Yields bad (f a) mid back Last) :
    Yields bad (p >>= f) ls back Last := by
  intro s hStands
  rcases hFirst s hStands with ⟨rfl, hStands'⟩
  exact hSecond _ hStands'

theorem Steps.yields
    {p : Parse α}
    {a : α}
    (hSteps : Steps p ls back a)
    (hResult : Result a) :
    Yields bad p ls back Result := by
  intro s hStands
  rcases hSteps s hStands with ⟨rfl, hStands'⟩
  exact .inr ⟨hResult, hStands'⟩

------------------------------------------------------------
-- Steps
------------------------------------------------------------

theorem steps_pure
    (a : α) :
    Steps (pure a) ls ls a :=
  fun _ hStands => ⟨rfl, hStands⟩

theorem Steps.trans
    {p : Parse α}
    {f : α → Parse β}
    {a : α}
    {b : β}
    (hFirst : Steps p ls mid a)
    (hSecond : Steps (f a) mid back b) :
    Steps (p >>= f) ls back b := by
  intro s hStands
  rcases hFirst s hStands with ⟨rfl, hStands'⟩
  exact hSecond _ hStands'

theorem steps_rest :
    Steps Parse.rest ls ls ls :=
  fun _ hStands => ⟨hStands.rest, hStands⟩

theorem steps_peek :
    Steps peek ls ls ls.head? :=
  fun _ hStands => ⟨by rw [← hStands.rest]; rfl, hStands⟩

theorem steps_isAt
    (kind : Kind) :
    Steps (isAt kind) ls ls (ls.head?.any (·.kind == kind)) :=
  fun _ hStands => ⟨by rw [← hStands.rest]; rfl, hStands⟩

theorem steps_skip
    (n : Nat) :
    Steps (skip n) ls (ls.drop n) () := by
  intro s hStands
  refine ⟨rfl, ?_, hStands.errors, hStands.poisoned⟩
  change s.rest.drop n = _
  rw [hStands.rest]

theorem steps_skip_one
    (l : Lexeme) :
    Steps (skip 1) (l :: ls) ls () :=
  steps_skip 1

theorem steps_currentSpan
    (l : Lexeme) :
    Steps currentSpan (l :: ls) (l :: ls) l.span := by
  intro s hStands
  refine ⟨?_, hStands⟩
  change (s.rest.head?.map Lexeme.span).getD _ = _
  rw [hStands.rest]
  rfl

theorem steps_eat
    {kind : Kind}
    {l : Lexeme}
    (hKind : l.kind = kind) :
    Steps (eat kind) (l :: ls) ls (some l) := by
  intro s hStands
  rw [eat_of_cons hStands.rest hKind]
  exact ⟨rfl, (ParseState.take_one hStands.rest).2,
    hStands.errors, hStands.poisoned⟩

theorem steps_expect
    {kind : Kind}
    {l : Lexeme}
    (wanted : Wanted)
    (hKind : l.kind = kind) :
    Steps (expect kind wanted) (l :: ls) ls (.ok l) := by
  unfold expect
  exact (steps_eat hKind).trans (steps_pure _)

theorem steps_eat_none
    {kind : Kind}
    (hKind : ∀ l ∈ ls.head?, l.kind ≠ kind) :
    Steps (eat kind) ls ls none := by
  intro s hStands
  rw [eat_of_ne (by rw [hStands.rest]; exact hKind)]
  exact ⟨rfl, hStands⟩

/- Where no lexeme of some kinds comes next there is no run of them. -/
theorem runLength_eq_zero
    {p : Kind → Bool}
    (hHead : ∀ l ∈ ls.head?, p l.kind = false) :
    runLength p ls = 0 := by
  cases ls with
  | nil => rfl
  | cons l ls => simp [runLength, hHead l rfl]

theorem steps_skipLineEnds
    (hHead : ∀ l ∈ ls.head?, l.kind ≠ .endOfLine) :
    Steps skipLineEnds ls ls () := by
  intro s hStands
  have hNone : runLength isLineEnd s.rest = 0 := by
    rw [hStands.rest]
    apply runLength_eq_zero
    intro l hMember
    simpa [isLineEnd] using hHead l hMember
  change () = () ∧ Stands ls (s.advance (runLength isLineEnd s.rest))
  rw [hNone]
  exact ⟨rfl, hStands.rest, hStands.errors, hStands.poisoned⟩

theorem steps_skipSeparators
    (hHead : ∀ l ∈ ls.head?, isSeparator l.kind = false) :
    Steps skipSeparators ls ls () := by
  intro s hStands
  have hNone : runLength isSeparator s.rest = 0 := by
    rw [hStands.rest]
    exact runLength_eq_zero hHead
  change () = () ∧
    Stands ls (s.advance (runLength isSeparator s.rest))
  rw [hNone]
  exact ⟨rfl, hStands.rest, hStands.errors, hStands.poisoned⟩

/- Counting an expression changes no lexeme and no error. -/
theorem Yields.nested
    {p : Parse α}
    (hYields : Yields bad p ls back Result) :
    Yields bad (Parse.nested p) ls back Result := by
  intro s hStands
  have hEntered : Stands ls s.enter :=
    ⟨hStands.rest, hStands.errors, hStands.poisoned⟩
  rcases hYields s.enter hEntered with hBad | ⟨hDone, hStands'⟩
  · exact .inl hBad
  · exact .inr ⟨hDone, hStands'.rest, hStands'.errors,
      hStands'.poisoned⟩

/- An error that is noted is noted for good. -/
theorem yields_failure
    {fault : ParseFault}
    {errorSpan nodeSpan : Span}
    {Result : Node → Prop}
    (hBad : bad ⟨fault, errorSpan⟩) :
    Yields bad (failure fault errorSpan nodeSpan) ls back
      Result := by
  intro s hStands
  left
  refine ⟨⟨fault, errorSpan⟩, ?_, hBad⟩
  change _ ∈ (s.report fault errorSpan).errors
  unfold ParseState.report
  rw [hStands.poisoned, hStands.errors]
  simp

theorem yields_errorNode
    {fault : ParseFault}
    {Result : Node → Prop}
    (hBad : ∀ span, bad ⟨fault, span⟩) :
    Yields bad (errorNode fault) ls back Result :=
  fun s hStands => yields_failure (hBad s.currentSpan) s hStands

------------------------------------------------------------
-- Closing brackets
------------------------------------------------------------

/- What closes a construct comes next. -/
theorem steps_expectClosing
    {closer : Closer}
    {l : Lexeme}
    (opened : Span)
    (hKind : l.kind = closer.kind) :
    Steps (expectClosing closer opened) (l :: ls) ls (.ok l) := by
  have hNoLineEnd : ∀ m ∈ (l :: ls).head?, m.kind ≠ .endOfLine := by
    intro m hHead
    cases hHead
    rw [hKind]
    cases closer <;> exact Kind.noConfusion
  unfold expectClosing
  refine (steps_skipLineEnds hNoLineEnd).trans
    (steps_peek.trans ?_)
  exact (steps_eat hKind).trans (steps_pure _)

theorem steps_close
    {closer : Closer}
    {l : Lexeme}
    (opened : Span)
    (items : List Node)
    (hKind : l.kind = closer.kind) :
    Steps (close closer opened items) (l :: ls) ls
      (items, opened.merge l.span) :=
  (steps_expectClosing opened hKind).trans (steps_pure _)

theorem grows_close
    (closer : Closer)
    (opened : Span)
    (items : List Node) :
    Grows (close closer opened items) := by
  have hExpect : Grows (expectClosing closer opened) := by
    intro s
    rcases (closing_expectClosing 0 closer opened s).steady with
      ⟨taken, hSteady⟩
    exact hSteady.errors
  refine hExpect.bind fun r => ?_
  cases r with
  | ok l => exact .pure _
  | error e => exact fun s => List.prefix_refl _

------------------------------------------------------------
-- Statements
------------------------------------------------------------

variable {n : Nat}
variable {expr : ExpressionParser}
variable {stop : Kind → Bool}

/- Statements end here, with no separator in front. -/
def EndsHere
    (stop : Kind → Bool) : List Lexeme → Prop
| [] => True
| l :: _ => isSeparator l.kind = false ∧ stop l.kind = true

theorem EndsHere.stops
    (hEnds : EndsHere stop ls) :
    Stops stop ls := by
  cases ls with
  | nil => exact True.intro
  | cons l ls => exact Bool.or_eq_true_iff.mpr (.inr hEnds.2)

/- A statement in order is ended where statements may end. -/
theorem steps_finishStatement
    (hStops : Stops stop back)
    (hLess : back.length < ls.length) :
    Steps (finishStatement stop ls) back back none := by
  intro s hStands
  have hBoundary : boundaryError? stop s = (none, s) := by
    cases hRest : s.rest with
    | nil => exact boundaryError?_of_nil stop hRest
    | cons l ls =>
        rw [boundaryError?_of_cons stop hRest, if_pos]
        rw [← hStands.rest, hRest] at hStops
        rw [Bool.or_eq_true_iff]
        exact .inl hStops
  rw [finishStatement_of_clean hStands.poisoned hBoundary
    (by rw [hStands.rest]; exact hLess)]
  exact ⟨rfl, hStands⟩

/- A statement in order that takes a lexeme. -/
theorem Yields.statement
    {Result : Node → Prop}
    (hNode : Yields bad (expr 0 .statement) ls back Result)
    (hStops : Stops stop back)
    (hLess : back.length < ls.length)
    (hGrows : Grows (finishStatement stop ls)) :
    Yields bad (statement expr stop) ls back Result := by
  unfold Parse.statement
  refine steps_rest.bind ?_
  refine hNode.bind (fun _ => hGrows.bind fun _ => .pure _) ?_
  intro node hResult
  exact (steps_finishStatement hStops hLess).bind (.pure hResult)

/- Errors at the end of a statement are added to those before. -/
theorem grows_finishStatement
    (stop : Kind → Bool)
    (start : List Lexeme) :
    Grows (finishStatement stop start) := by
  intro s
  rcases Takes.boundaryError? 0 stop s with ⟨none, hTakes⟩
  rcases moves_recovered 0 stop start
    (boundaryError? stop s).2 with ⟨more, hMore⟩
  rw [finishStatement_apply]
  have hErrors := hTakes.errors.trans hMore.errors
  unfold progressed
  split <;> exact hErrors

theorem grows_statementsFor
    (hExpr : Sound n expr)
    (k : Nat) :
    Grows (statementsFor expr stop k) := by
  have hStatement : Grows (Parse.statement expr stop) := by
    intro s
    have hParts :
        Grows (do
          let node ← expr 0 .statement
          return withTrailing node
            (← finishStatement stop s.rest)) :=
      (hExpr.grows 0 .statement).bind fun _ =>
        (grows_finishStatement stop s.rest).bind fun _ => .pure _
    exact hParts s
  induction k with
  | zero => exact fun _ => List.prefix_refl _
  | succ k ih =>
      intro s
      rw [statementsFor_succ]
      split
      · exact List.prefix_refl _
      · exact (hStatement (skipSeparators s).2).trans (ih _)

/- Where statements end there are no more of them. -/
theorem steps_statementsFor
    (k : Nat)
    (hEnds : EndsHere stop ls) :
    Steps (statementsFor expr stop (k + 1)) ls ls [] := by
  intro s hStands
  have hHead :
      ∀ l ∈ ls.head?, isSeparator l.kind = false := by
    intro l hMember
    cases ls with
    | nil => cases hMember
    | cons l' ls =>
        cases hMember
        exact hEnds.1
  have hStands' := (steps_skipSeparators hHead s hStands).2
  have hEndsAt :
      endsAt stop (skipSeparators s).2.rest.head? = true := by
    rw [hStands'.rest]
    cases ls with
    | nil => rfl
    | cons l ls => exact hEnds.2
  rw [statementsFor_succ, hEndsAt, if_pos rfl]
  exact ⟨rfl, hStands'⟩

theorem Yields.statementsFor
    {Result : Node → Prop}
    (k : Nat)
    (hExpr : Sound n expr)
    (hNode : Yields bad (expr 0 .statement) ls back Result)
    (hStart : Starts stop ls)
    (hEnds : EndsHere stop back)
    (hLess : back.length < ls.length) :
    Yields bad (Parse.statementsFor expr stop (k + 2)) ls back
      (fun nodes => ∃ node, nodes = [node] ∧ Result node) := by
  cases ls with
  | nil => exact hStart.elim
  | cons l ls =>
      have hHead :
          isSeparator l.kind = false ∧ stop l.kind = false :=
        Bool.or_eq_false_iff.mp hStart
      unfold Parse.statementsFor
      refine (steps_skipSeparators ?_).bind (steps_peek.bind ?_)
      · intro m hMember
        cases hMember
        exact hHead.1
      · have hGoes : endsAt stop (l :: ls).head? = false := hHead.2
        rw [hGoes, if_neg Bool.false_ne_true]
        refine (hNode.statement hEnds.stops hLess
          (grows_finishStatement stop _)).bind
          (fun _ => (grows_statementsFor hExpr _).bind
            fun _ => .pure _) ?_
        intro node hResult
        exact (steps_statementsFor k hEnds).bind
          (.pure ⟨node, rfl, hResult⟩)

/- A part with errors of its own, where there are none so far. -/
theorem Yields.isolated
    {p : Parse α}
    (hYields : Yields bad p ls back Result) :
    Yields bad (Parse.isolated p) ls back Result := by
  intro s hStands
  have hClean : { s with poisoned := false } = s := by
    rw [← hStands.poisoned]
  rw [isolated_apply, hClean]
  rcases hYields s hStands with hBad | ⟨hDone, hStands'⟩
  · exact .inl hBad
  · exact .inr ⟨hDone, hStands'.rest, hStands'.errors,
      hStands.poisoned⟩

/- Statements that are a single one. -/
theorem Yields.statements
    {Result : Node → Prop}
    (hExpr : Sound n expr)
    (hNode : Yields bad (expr 0 .statement) ls back Result)
    (hStart : Starts stop ls)
    (hEnds : EndsHere stop back)
    (hLess : back.length < ls.length) :
    Yields bad (Parse.statements expr stop) ls back
      (fun nodes => ∃ node, nodes = [node] ∧ Result node) := by
  refine steps_rest.bind (Yields.isolated ?_)
  rcases Nat.exists_eq_add_of_lt hLess with ⟨k, hLength⟩
  have hBound : ls.length + 1 = back.length + k + 2 := by omega
  rw [hBound]
  exact hNode.statementsFor _ hExpr hStart hEnds hLess

/- A document of statements in order, up to its end. -/
theorem Yields.parseLexemes
    {Result : List Node → Prop}
    (hStatements :
      Yields bad (Parse.statements topLevelExpression isTopLevelEnd)
        ls [] Result) :
    (∃ e ∈ (parseLexemes ls).2.errors, bad e) ∨
      Result (parseLexemes ls).1 ∧
        (parseLexemes ls).2.errors = [] := by
  rcases hStatements (ParseState.start ls) ⟨rfl, rfl, rfl⟩ with
    hBad | ⟨hDone, hStands⟩
  · exact .inl hBad
  · exact .inr ⟨hDone, hStands.errors⟩

end ElixirReader
