import ElixirReader.Proofs.Parser.Moves

/-
  This file compares two runs of one part of the parser: a
  run over some lexemes, and a run over the same lexemes in a
  larger text. What came before them does not matter to the
  second run; what comes behind them does not if the first
  one finds nothing faulty.

  Key definitions include:
    * `Kind.endsText`
    * `Setting`
    * `Setting.place`
    * `Setting.IsWhole`
    * `Setting.Clean`
    * `Setting.Agrees`
    * `Setting.Sees`
    * `Tracks`
    * `Run`
    * `Walk`

  Main declarations:
    * `Setting.Clean.step`
    * `Run.bind`
    * `Walk.bind`
    * `Run.of_eq_or_fails`
-/

namespace ElixirReader

namespace Kind

/- The kinds that may come right behind a text inside another. -/
def endsText : Kind → Bool
| semicolon => true
| endOfLine => true
| closing .parenthesis => true
| interpolationEnd => true
| _ => false

theorem endsText_cases
    {k : Kind}
    (hEnds : k.endsText = true) :
    k = .semicolon ∨ k = .endOfLine ∨
      k = .closing .parenthesis ∨ k = .interpolationEnd := by
  unfold endsText at hEnds
  split at hEnds
  · exact .inl rfl
  · exact .inr (.inl rfl)
  · exact .inr (.inr (.inl rfl))
  · exact .inr (.inr (.inr rfl))
  · cases hEnds

end Kind

------------------------------------------------------------
-- Settings
------------------------------------------------------------

/- What a larger text adds to a run. -/
structure Setting where
  before : Option Span
  errors : List ParseError
  active : Nat
  deepest : Nat
  after : List Lexeme
  last : Span
  cutShort : Bool
  halted : Bool

namespace Setting

/- The state in the larger text. -/
def place
    (h : Setting)
    (s : ParseState) : ParseState :=
  { s with
    rest := s.rest ++ h.after
    before := s.before.or h.before
    last := h.last
    errors := h.errors ++ s.errors
    active := s.active + h.active
    deepest := max h.deepest (s.deepest + h.active)
    cutShort := s.cutShort || h.cutShort
    halted := s.halted || h.halted }

/- The larger text ends where the smaller one does. -/
def IsWhole
    (h : Setting)
    (s : ParseState) : Prop :=
  h.after = [] ∧ h.last = s.last

/-
  The larger text goes on with what ends a statement: a
  semicolon or a closing delimiter, perhaps on a new line.
-/
structure Ends
    (h : Setting)
    (l : Lexeme)
    (ls : List Lexeme) : Prop where
  after : h.after = l :: ls
  kind : l.kind.endsText = true
  newline : l.kind = .endOfLine →
    ∃ m ms, ls = m :: ms ∧ m.kind.isBarrier = true

/-
  What ends a balanced stretch: something that ends the
  smaller text, or a closing delimiter in it. Inside of
  delimiters a lexeme always follows.
-/
inductive Bounds
    (h : Setting)
    (inside : Bool)
    (ds : Nest) : List Lexeme → Prop where
| ends
    (l : Lexeme)
    (ls : List Lexeme)
    (hEnds : h.Ends l ls)
    (hInside : inside = true → ds ≠ []) :
    Bounds h inside ds []
| closer
    (l : Lexeme)
    (ls : List Lexeme)
    (hBarrier : l.kind.isBarrier = true)
    (hKind : l.kind ≠ .semicolon) :
    Bounds h inside ds (l :: ls)

/-
  A statement that is in order so far, in a balanced stretch
  of lexemes that the lexer has not reported.
-/
structure Fits
    (h : Setting)
    (inside : Bool)
    (ds : Nest)
    (after : List Lexeme)
    (s : ParseState) : Prop where
  bounds : h.Bounds inside ds after
  within : Within ds after s
  poisoned : s.poisoned = false
  faultless : Faultless s.rest

def Clean
    (h : Setting)
    (inside : Bool)
    (s : ParseState) : Prop :=
  ∃ ds after, h.Fits inside ds after s ∧ ds.isCode = true

/-
  The larger text is of no matter: nothing comes behind the
  smaller one, or the run over that finds no error.
-/
def Agrees
    (h : Setting)
    (inside : Bool)
    (s s' : ParseState) : Prop :=
  h.IsWhole s ∨ (h.Clean inside s ∧ s'.errors = s.errors)

/- The states of the first run that are compared. -/
def Sees
    (h : Setting)
    (inside : Bool)
    (s : ParseState) : Prop :=
  h.IsWhole s ∨ h.Clean inside s

variable {h : Setting}
variable {inside : Bool}
variable {n : Nat}
variable {taken taken' : List Lexeme}
variable {s s' s'' : ParseState}

theorem Bounds.barrier
    {ds : Nest}
    {after : List Lexeme}
    (hBounds : h.Bounds inside ds after) :
    Barrier after := by
  cases hBounds with
  | ends _ _ _ _ => exact True.intro
  | closer _ _ hBarrier _ => exact hBarrier

/- Inside of delimiters there is a next lexeme. -/
theorem Clean.rest_ne_nil
    (hClean : h.Clean true s) :
    s.rest ≠ [] := by
  rcases hClean with ⟨ds, after, hFits, hIsCode⟩
  cases hFits.bounds with
  | ends _ _ _ hInside =>
      exact hFits.within.rest_ne_nil (hInside rfl)
  | closer l ls _ _ =>
      rcases hFits.within with ⟨ms, hRest, _⟩
      rw [hRest]
      simp

theorem Clean.poisoned
    (hClean : h.Clean inside s) :
    s.poisoned = false := by
  rcases hClean with ⟨ds, after, hFits, hIsCode⟩
  exact hFits.poisoned

/- At the end of the smaller text something that ends it follows. -/
theorem Clean.after_eq
    (hClean : h.Clean inside s)
    (hRest : s.rest = []) :
    ∃ l ls, h.Ends l ls := by
  rcases hClean with ⟨ds, after, hFits, hIsCode⟩
  cases hFits.bounds with
  | ends l ls hEnds _ => exact ⟨l, ls, hEnds⟩
  | closer l ls _ _ =>
      rcases hFits.within with ⟨ms, hRest', _⟩
      rw [hRest] at hRest'
      simp at hRest'

/- A part that finds nothing faulty stays in the stretch. -/
theorem Fits.takes
    {ds : Nest}
    {after : List Lexeme}
    (hFits : h.Fits inside ds after s)
    (hIsCode : ds.isCode = true)
    (hTakes : Takes n taken s s')
    (hErrors : s'.errors = s.errors) :
    h.Fits inside ds after s' := by
  rcases hTakes.within ds after hFits.bounds.barrier
      hFits.within with
    ⟨es, hWithin, _, hCode⟩
  rcases hCode hIsCode with ⟨hSame, hSpeaks⟩
  have hFaultless := hFits.faultless
  rw [hTakes.rest, Faultless.append_iff] at hFaultless
  have hPoisoned : s'.poisoned = false := by
    cases hPoisoned : s'.poisoned with
    | false => rfl
    | true =>
        exact absurd hErrors
          (hSpeaks hFaultless.1 hFits.poisoned hPoisoned)
  have hEq := hSame hPoisoned
  subst hEq
  exact ⟨hFits.bounds, hWithin, hPoisoned, hFaultless.2⟩

/- A part that finds nothing faulty leaves a clean state. -/
theorem Clean.step
    (hClean : h.Clean inside s)
    (hTakes : Takes n taken s s')
    (hErrors : s'.errors = s.errors) :
    h.Clean inside s' := by
  rcases hClean with ⟨ds, after, hFits, hIsCode⟩
  exact ⟨ds, after, hFits.takes hIsCode hTakes hErrors, hIsCode⟩

theorem IsWhole.step
    (hWhole : h.IsWhole s)
    (hMoves : Moves n taken s s') :
    h.IsWhole s' :=
  ⟨hWhole.1, hWhole.2.trans hMoves.last.symm⟩

theorem Agrees.sees
    (hAgrees : h.Agrees inside s s') :
    h.Sees inside s := by
  rcases hAgrees with hWhole | ⟨hClean, _⟩
  · exact .inl hWhole
  · exact .inr hClean

theorem Agrees.left
    (hAgrees : h.Agrees inside s s'')
    (hMoves : Moves n taken s s')
    (hMoves' : Moves n taken' s' s'') :
    h.Agrees inside s s' := by
  rcases hAgrees with hWhole | ⟨hClean, hErrors⟩
  · exact .inl hWhole
  · exact .inr ⟨hClean, (hMoves.errors_eq hMoves' hErrors).1⟩

theorem Agrees.right
    (hAgrees : h.Agrees inside s s'')
    (hTakes : Takes n taken s s')
    (hMoves : Moves n taken' s' s'') :
    h.Agrees inside s' s'' := by
  rcases hAgrees with hWhole | ⟨hClean, hErrors⟩
  · exact .inl (hWhole.step hTakes.toMoves)
  · have hBoth := hTakes.toMoves.errors_eq hMoves hErrors
    exact .inr ⟨hClean.step hTakes hBoth.1, hBoth.2⟩

end Setting

------------------------------------------------------------
-- Runs
------------------------------------------------------------

/- The second run does what the first one does. -/
def Tracks
    (h : Setting)
    (inside : Bool)
    (p q : Parse α)
    (s : ParseState) : Prop :=
  h.Agrees inside s (p s).2 →
    q (h.place s) = ((p s).1, h.place (p s).2)

/-
  A part of the parser that may be found faulty. The parts of
  the two runs are the same but for the bounds of loops.
-/
structure Run
    (h : Setting)
    (n : Nat)
    (inside : Bool)
    (p q : Parse α)
    (s : ParseState) : Prop where
  takes : ∃ taken, Takes n taken s (p s).2
  tracks : Tracks h inside p q s

/-
  A part of the parser that consists of statements, each of
  which is done with its own errors.
-/
structure Walk
    (h : Setting)
    (n : Nat)
    (inside : Bool)
    (p q : Parse α)
    (s : ParseState) : Prop where
  moves : ∃ taken, Moves n taken s (p s).2
  clean : h.Clean inside s →
    (p s).2.errors = s.errors → h.Clean inside (p s).2
  tracks : Tracks h inside p q s

variable {α β : Type}
variable {h : Setting}
variable {inside : Bool}
variable {n : Nat}
variable {s : ParseState}

theorem Parse.bind_apply
    (p : Parse α)
    (f : α → Parse β)
    (s : ParseState) :
    (p >>= f) s = f (p s).1 (p s).2 :=
  rfl

theorem Parse.rest_bind_apply
    (f : List Lexeme → Parse β)
    (s : ParseState) :
    (Parse.rest >>= f) s = f s.rest s :=
  rfl

theorem Tracks.bind
    {inside' : Bool}
    {m n : Nat}
    {taken taken' : List Lexeme}
    {p q : Parse α}
    {f g : α → Parse β}
    (hFirst : Tracks h inside p q s)
    (hMoves : Moves m taken s (p s).2)
    (hMoves' : Moves n taken' (p s).2 ((p >>= f) s).2)
    (hClean : h.Clean inside s →
      (p s).2.errors = s.errors → h.Clean inside' (p s).2)
    (hSecond :
      Tracks h inside' (f (p s).1) (g (p s).1) (p s).2) :
    Tracks h inside (p >>= f) (q >>= g) s := by
  intro hAgrees
  have hMiddle :
      h.Agrees inside s (p s).2 ∧
        h.Agrees inside' (p s).2 ((p >>= f) s).2 := by
    rcases hAgrees with hWhole | ⟨hStart, hErrors⟩
    · exact ⟨.inl hWhole, .inl (hWhole.step hMoves)⟩
    · have hBoth := hMoves.errors_eq hMoves' hErrors
      exact ⟨.inr ⟨hStart, hBoth.1⟩,
        .inr ⟨hClean hStart hBoth.1, hBoth.2⟩⟩
  rw [Parse.bind_apply q, hFirst hMiddle.1]
  exact hSecond hMiddle.2

theorem Run.walk
    {p q : Parse α}
    (hRun : Run h n inside p q s) :
    Walk h n inside p q s := by
  rcases hRun.takes with ⟨taken, hTakes⟩
  exact ⟨⟨taken, hTakes.toMoves⟩,
    fun hClean hErrors => hClean.step hTakes hErrors,
    hRun.tracks⟩

theorem Run.bind
    {p q : Parse α}
    {f g : α → Parse β}
    (hFirst : Run h n inside p q s)
    (hSecond : ∀ a s', p s = (a, s') →
      Run h n inside (f a) (g a) s') :
    Run h n inside (p >>= f) (q >>= g) s := by
  rcases hFirst.takes with ⟨taken, hTakes⟩
  have hNext := hSecond (p s).1 (p s).2 rfl
  rcases hNext.takes with ⟨taken', hTakes'⟩
  refine ⟨⟨taken ++ taken', hTakes.trans hTakes'⟩, ?_⟩
  exact hFirst.tracks.bind hTakes.toMoves hTakes'.toMoves
    hFirst.walk.clean hNext.tracks

theorem Walk.bind
    {p q : Parse α}
    {f g : α → Parse β}
    (hFirst : Walk h n inside p q s)
    (hSecond : ∀ a s', p s = (a, s') →
      Walk h n inside (f a) (g a) s') :
    Walk h n inside (p >>= f) (q >>= g) s := by
  rcases hFirst.moves with ⟨taken, hMoves⟩
  have hNext := hSecond (p s).1 (p s).2 rfl
  rcases hNext.moves with ⟨taken', hMoves'⟩
  refine ⟨⟨taken ++ taken', hMoves.trans hMoves'⟩, ?_, ?_⟩
  · intro hClean hErrors
    have hBoth := hMoves.errors_eq hMoves' hErrors
    exact hNext.clean (hFirst.clean hClean hBoth.1) hBoth.2
  · exact hFirst.tracks.bind hMoves hMoves' hFirst.clean
      hNext.tracks

theorem Run.pure
    (a : α) :
    Run h n inside (pure a) (pure a) s :=
  ⟨⟨[], Takes.refl n s⟩, fun _ => rfl⟩

theorem Run.length_le
    {p q : Parse α}
    (hRun : Run h n inside p q s) :
    (p s).2.rest.length ≤ s.rest.length := by
  rcases hRun.takes with ⟨taken, hTakes⟩
  have hLength := hTakes.length_rest
  omega

/-
  A part takes no lexemes back, and what was taken before it
  stays taken.
-/
theorem Run.bind_le
    {p q : Parse α}
    {f g : α → Parse β}
    (hFirst : Run h n inside p q s)
    (hSecond : ∀ a s', s'.rest.length ≤ s.rest.length →
      (s.before.isSome = true → s'.before.isSome = true) →
        Run h n inside (f a) (g a) s') :
    Run h n inside (p >>= f) (q >>= g) s := by
  rcases hFirst.takes with ⟨taken, hTakes⟩
  apply hFirst.bind
  intro a s' hEq
  rw [hEq] at hTakes
  apply hSecond
  · have hLength := hTakes.length_rest
    change _ = _ + s'.rest.length at hLength
    omega
  · exact fun hBefore => hTakes.before (.inr hBefore)

/- What the second run sees may be put in terms of the first. -/
theorem Run.of_eq
    {p q q' : Parse α}
    (hRun : Run h n inside p q' s)
    (hEq : h.Sees inside s → q = q') :
    Run h n inside p q s := by
  refine ⟨hRun.takes, ?_⟩
  intro hAgrees
  rw [hEq hAgrees.sees]
  exact hRun.tracks hAgrees

/- An error in the first run leaves nothing to compare. -/
def Fails
    (p : Parse α)
    (s : ParseState) : Prop :=
  s.poisoned = false → (p s).2.errors ≠ s.errors

theorem Tracks.of_fails
    {p q : Parse α}
    (hFails : Fails p s)
    (hWhole : h.IsWhole s →
      q (h.place s) = ((p s).1, h.place (p s).2)) :
    Tracks h inside p q s := by
  rintro (hIsWhole | ⟨⟨ds, after, hFits, hIsCode⟩, hErrors⟩)
  · exact hWhole hIsWhole
  · exact absurd hErrors (hFails hFits.poisoned)

/- What the second run sees matters only if the first succeeds. -/
theorem Run.of_eq_or_fails
    {p q q' : Parse α}
    (hRun : Run h n inside p q' s)
    (hWhole : h.IsWhole s → q = q')
    (hClean : h.Clean inside s → q = q' ∨ Fails p s) :
    Run h n inside p q s := by
  refine ⟨hRun.takes, ?_⟩
  rintro (hIsWhole | ⟨hStart, hErrors⟩)
  · rw [hWhole hIsWhole]
    exact hRun.tracks (.inl hIsWhole)
  · rcases hClean hStart with hEq | hFails
    · rw [hEq]
      exact hRun.tracks (.inr ⟨hStart, hErrors⟩)
    · exact absurd hErrors (hFails hStart.poisoned)

/- What fails does so with whatever follows. -/
theorem Fails.bind
    {m : Nat}
    {taken taken' : List Lexeme}
    {p : Parse α}
    {f : α → Parse β}
    (hFails : Fails p s)
    (hFirst : Moves n taken s (p s).2)
    (hSecond : Moves m taken' (p s).2 ((p >>= f) s).2) :
    Fails (p >>= f) s := by
  intro hClean hErrors
  apply hFails hClean
  have hBack : (p s).2.errors <+: s.errors := by
    rw [← hErrors]
    exact hSecond.errors
  exact hBack.eq_of_length_le hFirst.errors.length_le

/- What fails later fails behind a part that is in order. -/
theorem Fails.of_bind
    {p : Parse α}
    {f : α → Parse β}
    {taken taken' : List Lexeme}
    (hStart : h.Clean inside s)
    (hFirst : Takes n taken s (p s).2)
    (hSecond : Moves n taken' (p s).2 ((p >>= f) s).2)
    (hFails : h.Clean inside (p s).2 →
      Fails (f (p s).1) (p s).2) :
    Fails (p >>= f) s := by
  intro hClean hErrors
  have hBoth := hFirst.toMoves.errors_eq hSecond hErrors
  have hMiddle := hStart.step hFirst hBoth.1
  exact hFails hMiddle hMiddle.poisoned hBoth.2

end ElixirReader
