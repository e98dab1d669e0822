import ElixirReader.Proofs.Parser.Runs

/-
  This file shows what the smallest parts of the parser do:
  those that look at the next lexemes, take them, or note an
  error.

  Main declarations:
    * `Setting.Sees.head?_append`
    * `Setting.Sees.runLength_isLineEnd_append`
    * `Run.bind_rest`
    * `Run.bind_peek`
    * `Run.bind_eat`
    * `Run.errorNode`
    * `Run.expect`
    * `closing_expectClosing`
    * `tracks_expectClosing`
-/

namespace ElixirReader

open Parse

variable {α β : Type}
variable {h : Setting}
variable {inside : Bool}
variable {n : Nat}
variable {s : ParseState}

------------------------------------------------------------
-- Separators
------------------------------------------------------------

theorem isFlat_of_isSeparator
    {k : Kind}
    (hSeparator : isSeparator k = true) :
    k.isFlat = true := by
  cases k <;> first | rfl | cases hSeparator

/- A closing delimiter separates no statements. -/
theorem isSeparator_of_isBarrier
    {k : Kind}
    (hBarrier : k.isBarrier = true)
    (hKind : k ≠ .semicolon) :
    isSeparator k = false := by
  cases k <;>
    first | rfl | exact absurd rfl hKind | cases hBarrier

theorem isLineEnd_of_isSeparator
    {k : Kind}
    (hSeparator : isSeparator k = false) :
    isLineEnd k = false := by
  cases k <;> first | rfl | cases hSeparator

------------------------------------------------------------
-- What the larger text shows
------------------------------------------------------------

namespace Setting

/- The next lexeme is the same, or ends the text instead of none. -/
theorem Sees.head?_append
    (hSees : h.Sees inside s) :
    (s.rest ++ h.after).head? = s.rest.head? ∨
      s.rest = [] ∧
        ∃ l, (s.rest ++ h.after).head? = some l ∧
          l.kind.endsText = true := by
  cases hRest : s.rest with
  | cons l ls => exact .inl rfl
  | nil =>
      rcases hSees with hWhole | hClean
      · left
        rw [hWhole.1]
        rfl
      · right
        rcases hClean.after_eq hRest with ⟨l, ls, hEnds⟩
        refine ⟨rfl, l, ?_, hEnds.kind⟩
        rw [hEnds.after]
        rfl

theorem Sees.head?_append_of_inside
    (hSees : h.Sees true s) :
    (s.rest ++ h.after).head? = s.rest.head? := by
  rcases hSees.head?_append with hSame | ⟨hRest, _⟩
  · exact hSame
  · rcases hSees with hWhole | hClean
    · rw [hWhole.1, List.append_nil]
    · exact absurd hRest hClean.rest_ne_nil

/- A question that is answered as at the end of the text. -/
theorem Sees.any_head?_append
    (f : Lexeme → Bool)
    (hSees : h.Sees inside s)
    (hEnds : ∀ l : Lexeme, l.kind.endsText = true → f l = false) :
    (s.rest ++ h.after).head?.any f = s.rest.head?.any f := by
  rcases hSees.head?_append with hSame | ⟨hRest, l, hHead, hKind⟩
  · rw [hSame]
  · rw [hHead, hRest]
    exact hEnds l hKind

theorem takeWhile_append_of_exists
    {p : Lexeme → Bool}
    {ls ms : List Lexeme}
    (hExists : ∃ l ∈ ls, p l = false) :
    (ls ++ ms).takeWhile p = ls.takeWhile p := by
  rcases hExists with ⟨l, hMem, hFalse⟩
  induction ls with
  | nil => cases hMem
  | cons k ls ih =>
      cases hHead : p k with
      | false => simp [hHead]
      | true =>
          have hTail : l ∈ ls := by
            rcases List.mem_cons.mp hMem with rfl | hTail
            · rw [hFalse] at hHead
              cases hHead
            · exact hTail
          simp [hHead, ih hTail]

/- A run of lexemes of some kinds ends at the same place. -/
theorem Sees.takeWhile_append
    (p : Lexeme → Bool)
    (hSees : h.Sees inside s)
    (hBarrier : ∀ l : Lexeme,
      l.kind.isBarrier = true → p l = false)
    (hEnds : ∀ l : Lexeme,
      l.kind.endsText = true → p l = false) :
    (s.rest ++ h.after).takeWhile p = s.rest.takeWhile p := by
  rcases hSees with hWhole | ⟨ds, after, hFits, hIsCode⟩
  · rw [hWhole.1, List.append_nil]
  · cases hFits.bounds with
    | closer l ls hIsBarrier _ =>
        rcases hFits.within with ⟨ms, hRest, _⟩
        apply takeWhile_append_of_exists
        refine ⟨l, ?_, hBarrier l hIsBarrier⟩
        rw [hRest]
        simp
    | ends l ls hIsEnd _ =>
        have hStop : p l = false := hEnds l hIsEnd.kind
        rw [hIsEnd.after]
        cases hExists : s.rest.all p with
        | true =>
            rw [List.takeWhile_append_of_pos]
            · have hAll :
                  (s.rest ++ []).takeWhile p =
                    s.rest ++ [].takeWhile p :=
                List.takeWhile_append_of_pos
                  (List.all_eq_true.mp hExists)
              simp only [List.append_nil, List.takeWhile_nil]
                at hAll
              simp [hStop, hAll]
            · exact List.all_eq_true.mp hExists
        | false =>
            apply takeWhile_append_of_exists
            simpa using hExists

/- Inside of delimiters something else than a separator follows. -/
theorem Clean.exists_not_isSeparator
    (hClean : h.Clean true s) :
    ∃ l ∈ s.rest, isSeparator l.kind = false := by
  rcases hClean with ⟨ds, after, hFits, hIsCode⟩
  cases hFits.bounds with
  | closer l ls hBarrier hKind =>
      rcases hFits.within with ⟨ms, hRest, _⟩
      exact ⟨l, by simp [hRest],
        isSeparator_of_isBarrier hBarrier hKind⟩
  | ends l ls _ hInside =>
      rcases hFits.within with ⟨ms, hRest, hBehind⟩
      rw [List.append_nil] at hRest
      rw [hRest]
      cases hAll : ms.all (fun l => isSeparator l.kind) with
      | false => simpa using hAll
      | true =>
          exfalso
          apply hInside rfl
          symm
          apply Nest.behind?_of_isFlat _ hIsCode hBehind
          intro m hMem
          apply isFlat_of_isSeparator
          exact List.all_eq_true.mp hAll m hMem

/- Newlines in front of something else end at the same place. -/
theorem runLength_isLineEnd_append
    {ls : List Lexeme}
    (after : List Lexeme)
    (hMore : ls.drop (runLength isLineEnd ls) ≠ []) :
    runLength isLineEnd (ls ++ after) = runLength isLineEnd ls := by
  unfold runLength
  rw [takeWhile_append_of_exists]
  cases hAll : ls.all (fun l => isLineEnd l.kind) with
  | false => simpa using hAll
  | true =>
      exfalso
      apply hMore
      have hSelf :
          (ls ++ []).takeWhile (fun l => isLineEnd l.kind) =
            ls ++ [].takeWhile (fun l => isLineEnd l.kind) :=
        List.takeWhile_append_of_pos (List.all_eq_true.mp hAll)
      simp only [List.append_nil, List.takeWhile_nil] at hSelf
      rw [runLength, hSelf, List.drop_length]

theorem Sees.runLength_isLineEnd_append
    (hSees : h.Sees true s) :
    runLength isLineEnd (s.rest ++ h.after) =
      runLength isLineEnd s.rest := by
  rcases hSees with hWhole | hClean
  · rw [hWhole.1, List.append_nil]
  · rcases hClean.exists_not_isSeparator with ⟨l, hMem, hNot⟩
    unfold runLength
    rw [takeWhile_append_of_exists]
    exact ⟨l, hMem, isLineEnd_of_isSeparator hNot⟩

end Setting

------------------------------------------------------------
-- Looking ahead
------------------------------------------------------------

theorem Run.bind_rest
    {f g : List Lexeme → Parse α}
    (hRun :
      Run h n inside (f s.rest) (g (s.rest ++ h.after)) s) :
    Run h n inside (rest >>= f) (rest >>= g) s :=
  ⟨hRun.takes, hRun.tracks⟩

theorem Run.bind_peek
    {f g : Option Lexeme → Parse α}
    (hRun : Run h n inside (f s.rest.head?)
      (g (s.rest ++ h.after).head?) s) :
    Run h n inside (peek >>= f) (peek >>= g) s :=
  ⟨hRun.takes, hRun.tracks⟩

/- Where there is a next lexeme, both runs see it. -/
theorem Run.bind_peek_of_cons
    {f g : Option Lexeme → Parse α}
    {l : Lexeme}
    {ls : List Lexeme}
    (hRest : s.rest = l :: ls)
    (hRun : Run h n inside (f (some l)) (g (some l)) s) :
    Run h n inside (peek >>= f) (peek >>= g) s := by
  apply Run.bind_peek
  rw [hRest]
  exact hRun

/-
  Look at the next lexeme, if what ends the text is as good
  there as none.
-/
theorem Run.bind_peek_ends
    {f g : Option Lexeme → Parse α}
    (hSome : ∀ l ls, s.rest = l :: ls →
      Run h n inside (f (some l)) (g (some l)) s)
    (hNone : s.rest = [] → Run h n inside (f none) (g none) s)
    (hEnds : ∀ l : Lexeme, l.kind.endsText = true →
      g (some l) = g none) :
    Run h n inside (peek >>= f) (peek >>= g) s := by
  cases hRest : s.rest with
  | cons l ls => exact Run.bind_peek_of_cons hRest (hSome l ls hRest)
  | nil =>
      apply Run.bind_peek
      rw [hRest]
      apply Run.of_eq (hNone hRest)
      intro hSees
      rcases hSees.head?_append with hSame | ⟨_, l, hHead, hKind⟩
      · rw [hRest] at hSame
        rw [hSame]
        rfl
      · rw [hRest] at hHead
        rw [hHead, hEnds l hKind]

theorem Run.bind_currentSpan
    {f g : Span → Parse α}
    {l : Lexeme}
    {ls : List Lexeme}
    (hRest : s.rest = l :: ls)
    (hRun : Run h n inside (f l.span) (g l.span) s) :
    Run h n inside (currentSpan >>= f) (currentSpan >>= g) s := by
  have hSpan : s.currentSpan = l.span := by
    simp [ParseState.currentSpan, hRest]
  have hSpan' : (h.place s).currentSpan = l.span := by
    simp [ParseState.currentSpan, Setting.place, hRest]
  constructor
  · change ∃ taken, Takes n taken s (f s.currentSpan s).2
    rw [hSpan]
    exact hRun.takes
  · intro hAgrees
    change h.Agrees inside s (f s.currentSpan s).2 at hAgrees
    change g (h.place s).currentSpan (h.place s) =
      ((f s.currentSpan s).1, h.place (f s.currentSpan s).2)
    rw [hSpan] at hAgrees ⊢
    rw [hSpan']
    exact hRun.tracks hAgrees

/- Behind a lexeme that was taken, both runs know its place. -/
theorem Run.bind_previousSpan
    {f g : Span → Parse α}
    (hBefore : s.before.isSome = true)
    (hRun : ∀ span, Run h n inside (f span) (g span) s) :
    Run h n inside (previousSpan >>= f) (previousSpan >>= g)
      s := by
  have hSpan : (h.place s).previousSpan = s.previousSpan := by
    rcases Option.isSome_iff_exists.mp hBefore with ⟨b, hEq⟩
    simp [ParseState.previousSpan, Setting.place, hEq]
  constructor
  · exact (hRun s.previousSpan).takes
  · intro hAgrees
    change g (h.place s).previousSpan (h.place s) = _
    rw [hSpan]
    exact (hRun s.previousSpan).tracks hAgrees

/- A lexeme of a kind comes next, or none does. -/
theorem head?_cases
    (kind : Kind)
    (s : ParseState) :
    (∃ l ls, s.rest = l :: ls ∧ l.kind = kind) ∨
      ∀ l, s.rest.head? = some l → l.kind ≠ kind := by
  by_cases hNext : ∃ l ls, s.rest = l :: ls ∧ l.kind = kind
  · exact .inl hNext
  · right
    intro l hHead hKind
    rcases List.head?_eq_some_iff.mp hHead with ⟨ls, hRest⟩
    exact hNext ⟨l, ls, hRest, hKind⟩

/- Both runs see whether a lexeme of a kind comes next. -/
theorem Run.bind_isAt
    {f g : Bool → Parse α}
    {kind : Kind}
    (hEnds : kind.endsText = false)
    (hHere : ∀ l ls, s.rest = l :: ls → l.kind = kind →
      Run h n inside (f true) (g true) s)
    (hElse : (∀ l, s.rest.head? = some l → l.kind ≠ kind) →
      Run h n inside (f false) (g false) s) :
    Run h n inside (isAt kind >>= f) (isAt kind >>= g) s := by
  have hAny :
      h.Sees inside s →
        (s.rest ++ h.after).head?.any (·.kind == kind) =
          s.rest.head?.any (·.kind == kind) := by
    intro hSees
    apply hSees.any_head?_append
    intro l hKind
    rw [beq_eq_false_iff_ne]
    rintro rfl
    rw [hEnds] at hKind
    cases hKind
  have hRead :
      Run h n inside (f (s.rest.head?.any (·.kind == kind)))
        (g (s.rest.head?.any (·.kind == kind))) s := by
    rcases head?_cases kind s with
      ⟨l, ls, hRest, hL⟩ | hOther
    · rw [hRest]
      simpa [hL] using hHere l ls hRest hL
    · cases hHead : s.rest.head? with
      | none => exact hElse hOther
      | some l =>
          have hNot : (l.kind == kind) = false := by
            simpa using hOther l hHead
          simpa [hNot] using hElse hOther
  refine ⟨hRead.takes, ?_⟩
  intro hAgrees
  change g ((s.rest ++ h.after).head?.any _) (h.place s) = _
  rw [hAny hAgrees.sees]
  exact hRead.tracks hAgrees

------------------------------------------------------------
-- Taking lexemes
------------------------------------------------------------

theorem Setting.place_advance
    (h : Setting)
    {k : Nat}
    (hLength : k ≤ s.rest.length) :
    (h.place s).advance k = h.place (s.advance k) := by
  simp only [place, ParseState.advance, ParseState.mk.injEq,
    and_self, and_true]
  rw [List.drop_append_of_le_length hLength,
    List.take_append_of_le_length hLength, Option.or_assoc]
  exact ⟨rfl, rfl⟩

theorem Setting.place_skip
    (h : Setting)
    {l : Lexeme}
    {ls : List Lexeme}
    (hRest : s.rest = l :: ls) :
    Parse.skip 1 (h.place s) =
      ((), h.place (s.advance 1)) := by
  change ((), (h.place s).advance 1) = _
  rw [h.place_advance (by simp [hRest])]

theorem Setting.IsWhole.place_advance
    (hWhole : h.IsWhole s)
    (k : Nat) :
    (h.place s).advance k = h.place (s.advance k) := by
  simp only [place, ParseState.advance, ParseState.mk.injEq,
    and_self, and_true]
  rw [hWhole.1, List.append_nil, Option.or_assoc]
  exact ⟨(List.append_nil _).symm, rfl⟩

theorem Run.skip
    {k : Nat}
    (hPlain : ∀ l ∈ s.rest.take k, l.kind.isPlain = true)
    (hLength : k ≤ s.rest.length) :
    Run h n inside (skip k) (skip k) s := by
  constructor
  · exact ⟨_, Takes.advance n k s hPlain⟩
  · intro _
    change ((), (h.place s).advance k) = ((), h.place (s.advance k))
    rw [h.place_advance hLength]

/- Take one lexeme, which is of a plain kind. -/
theorem Run.bind_skip
    {f g : Unit → Parse α}
    {l : Lexeme}
    {ls : List Lexeme}
    (hRest : s.rest = l :: ls)
    (hPlain : l.kind.isPlain = true)
    (hRun : ∀ s', s'.rest = ls → s'.before.isSome = true →
      Run h n inside (f ()) (g ()) s') :
    Run h n inside (Parse.skip 1 >>= f) (Parse.skip 1 >>= g)
      s := by
  have hTakes := Takes.advance_one n hRest hPlain
  apply Run.bind
  · apply Run.skip
    · intro m hMem
      rw [(ParseState.take_one hRest).1,
        List.mem_singleton] at hMem
      rw [hMem]
      exact hPlain
    · simp [hRest]
  · intro _ s' hEq
    cases hEq
    apply hRun
    · exact (ParseState.take_one hRest).2
    · exact hTakes.before (.inl (List.cons_ne_nil l []))

theorem take_runLength
    (p : Kind → Bool)
    (ls : List Lexeme) :
    ls.take (runLength p ls) =
      ls.takeWhile (fun l => p l.kind) :=
  (List.prefix_iff_eq_take.mp (List.takeWhile_prefix _)).symm

theorem runLength_le_length
    (p : Kind → Bool)
    (ls : List Lexeme) :
    runLength p ls ≤ ls.length :=
  (List.takeWhile_prefix _).length_le

/- The lexemes that a run of some kinds consists of. -/
theorem of_mem_take_runLength
    {p : Kind → Bool}
    {ls : List Lexeme}
    {l : Lexeme}
    (hMem : l ∈ ls.take (runLength p ls)) :
    p l.kind = true := by
  rw [take_runLength] at hMem
  exact List.all_eq_true.mp List.all_takeWhile l hMem

theorem isPlain_of_isLineEnd
    {k : Kind}
    (hLineEnd : isLineEnd k = true) :
    k.isPlain = true := by
  have hEq : k = .endOfLine := by
    simpa [isLineEnd] using hLineEnd
  rw [hEq]
  rfl

theorem Takes.skipLineEnds
    (n : Nat)
    (s : ParseState) :
    ∃ taken, Takes n taken s (Parse.skipLineEnds s).2 :=
  ⟨_, Takes.advance n (runLength isLineEnd s.rest) s fun _ hMem =>
    isPlain_of_isLineEnd (of_mem_take_runLength hMem)⟩

theorem Run.skipLineEnds :
    Run h n true Parse.skipLineEnds Parse.skipLineEnds s := by
  refine ⟨Takes.skipLineEnds n s, ?_⟩
  intro hAgrees
  change ((), (h.place s).advance
    (runLength isLineEnd (s.rest ++ h.after))) = _
  rw [hAgrees.sees.runLength_isLineEnd_append,
    h.place_advance (runLength_le_length _ _)]
  rfl

/-
  Newlines that something has to follow. At the end of the
  smaller text the second run may take one more.
-/
theorem Run.bind_skipLineEnds
    {f g : Unit → Parse α}
    (hSecond : ∀ s', s'.rest.length ≤ s.rest.length →
      Run h n inside (f ()) (g ()) s')
    (hFails : ∀ s', s'.rest = [] → Fails (f ()) s') :
    Run h n inside (Parse.skipLineEnds >>= f)
      (Parse.skipLineEnds >>= g) s := by
  rcases Takes.skipLineEnds n s with ⟨taken, hTakes⟩
  have hNext := hSecond (Parse.skipLineEnds s).2 (by
    have hLength := hTakes.length_rest
    omega)
  rcases hNext.takes with ⟨taken', hTakes'⟩
  refine ⟨⟨_, hTakes.trans hTakes'⟩, ?_⟩
  intro hAgrees
  have hSkip : Parse.skipLineEnds (h.place s) =
      ((), h.place (Parse.skipLineEnds s).2) := by
    change ((), (h.place s).advance
      (runLength isLineEnd (s.rest ++ h.after))) = _
    rcases hAgrees with hWhole | ⟨hClean, hErrors⟩
    · rw [hWhole.1, List.append_nil, hWhole.place_advance]
      rfl
    · have hBoth := hTakes.toMoves.errors_eq hTakes'.toMoves hErrors
      have hMore : (Parse.skipLineEnds s).2.rest ≠ [] :=
        fun hNil => hFails _ hNil hClean.poisoned hBoth.2
      rw [Setting.runLength_isLineEnd_append h.after hMore,
        h.place_advance (runLength_le_length _ _)]
      rfl
  rw [Parse.bind_apply, hSkip]
  exact hNext.tracks
    (hAgrees.right hTakes hTakes'.toMoves)

theorem peek_of_nil
    (hRest : s.rest = []) :
    peek s = (none, s) := by
  change (s.rest.head?, s) = _
  rw [hRest]
  rfl

theorem peek_of_cons
    {l : Lexeme}
    {ls : List Lexeme}
    (hRest : s.rest = l :: ls) :
    peek s = (some l, s) := by
  change (s.rest.head?, s) = _
  rw [hRest]
  rfl

theorem eat_of_cons
    {kind : Kind}
    {l : Lexeme}
    {ls : List Lexeme}
    (hRest : s.rest = l :: ls)
    (hKind : l.kind = kind) :
    eat kind s = (some l, s.advance 1) := by
  rw [eat, Parse.bind_apply, peek_of_cons hRest]
  simp only [hKind, if_true]
  rfl

theorem eat_of_ne
    {kind : Kind}
    (hKind : ∀ l, s.rest.head? = some l → l.kind ≠ kind) :
    eat kind s = (none, s) := by
  have hPeek : peek s = (s.rest.head?, s) := rfl
  rw [eat, Parse.bind_apply, hPeek]
  cases hHead : s.rest.head? with
  | none => rfl
  | some l =>
      simp only [hKind l hHead, if_false]
      rfl

/-
  Take a lexeme of a plain kind if it comes next. What ends
  the text is as good as the end of the larger text.
-/
theorem Run.eat
    {kind : Kind}
    (hPlain : kind.isPlain = true)
    (hEnds : kind.endsText = false) :
    Run h n inside (Parse.eat kind) (Parse.eat kind) s := by
  rcases head?_cases kind s with
    ⟨l, ls, hRest, hKind⟩ | hOther
  · have hPlace : (h.place s).rest = l :: (ls ++ h.after) := by
      simp [Setting.place, hRest]
    constructor
    · rw [eat_of_cons hRest hKind]
      exact ⟨_, Takes.advance_one n hRest (hKind ▸ hPlain)⟩
    · intro _
      rw [eat_of_cons hRest hKind, eat_of_cons hPlace hKind,
        h.place_advance (by simp [hRest])]
  · constructor
    · rw [eat_of_ne hOther]
      exact ⟨[], Takes.refl n s⟩
    · intro hAgrees
      have hOther' :
          ∀ l, (h.place s).rest.head? = some l →
            l.kind ≠ kind := by
        intro l hHead
        rcases hAgrees.sees.head?_append with
          hSame | ⟨_, m, hHead', hKind⟩
        · exact hOther l (hSame ▸ hHead)
        · have hEq : l = m :=
            Option.some.inj (hHead.symm.trans hHead')
          rw [hEq]
          rintro rfl
          rw [hEnds] at hKind
          cases hKind
      rw [eat_of_ne hOther, eat_of_ne hOther']

theorem Run.bind_eat
    {f g : Option Lexeme → Parse α}
    {kind : Kind}
    (hPlain : kind.isPlain = true)
    (hEnds : kind.endsText = false)
    (hSome : ∀ l s',
      s.rest = l :: s'.rest →
        l.kind = kind →
          s'.before.isSome = true →
            Run h n inside (f (some l)) (g (some l)) s')
    (hNone :
      (∀ l, s.rest.head? = some l → l.kind ≠ kind) →
        Run h n inside (f none) (g none) s) :
    Run h n inside (Parse.eat kind >>= f)
      (Parse.eat kind >>= g) s := by
  apply (Run.eat hPlain hEnds).bind
  intro a s' hEq
  rcases head?_cases kind s with
    ⟨l, ls, hRest, hKind⟩ | hOther
  · rw [eat_of_cons hRest hKind] at hEq
    cases hEq
    have hTakes :=
      Takes.advance_one n hRest (by rw [hKind]; exact hPlain)
    apply hSome l _ _ hKind
    · exact hTakes.before (.inl (List.cons_ne_nil l []))
    · exact hTakes.rest
  · rw [eat_of_ne hOther] at hEq
    cases hEq
    exact hNone hOther

------------------------------------------------------------
-- Noting errors
------------------------------------------------------------

theorem Takes.report
    (n : Nat)
    (fault : ParseFault)
    (span : Span)
    (s : ParseState) :
    Takes n [] s (s.report fault span) := by
  cases hPoisoned : s.poisoned with
  | true =>
      rw [ParseState.report, if_pos hPoisoned]
      exact Takes.refl n s
  | false =>
      rw [ParseState.report, if_neg (by simp [hPoisoned])]
      refine ⟨⟨⟨rfl, rfl, ?_, ?_, rfl, rfl, rfl, ?_⟩, ?_, ?_⟩, ?_⟩
      · rintro (hNil | hBefore)
        · exact absurd rfl hNil
        · exact hBefore
      · exact List.prefix_append _ _
      · exact Nat.le_max_left _ _
      · exact fun _ => rfl
      · intro _
        simp [ParseState.budget, hPoisoned]
      · intro ds after _ hWithin
        refine ⟨ds, hWithin.congr rfl, Nat.le_refl _, ?_⟩
        intro _
        constructor
        · intro hClean
          cases hClean
        · intro _ _ _ hSame
          simp at hSame

theorem Setting.place_report
    (h : Setting)
    (fault : ParseFault)
    (span : Span) :
    (h.place s).report fault span =
      h.place (s.report fault span) := by
  cases hPoisoned : s.poisoned <;>
    simp [place, ParseState.report, hPoisoned]

theorem Run.report
    (fault : ParseFault)
    (span : Span) :
    Run h n inside (Parse.report fault span)
      (Parse.report fault span) s := by
  constructor
  · exact ⟨[], Takes.report n fault span s⟩
  · intro _
    change ((), (h.place s).report fault span) = _
    rw [h.place_report]
    rfl

theorem Run.failure
    (fault : ParseFault)
    (errorSpan nodeSpan : Span) :
    Run h n inside (Parse.failure fault errorSpan nodeSpan)
      (Parse.failure fault errorSpan nodeSpan) s := by
  apply (Run.report fault errorSpan).bind
  intro _ s' _
  exact Run.pure _

theorem poisoned_report
    (fault : ParseFault)
    (span : Span)
    (s : ParseState) :
    (s.report fault span).poisoned = true := by
  cases hPoisoned : s.poisoned <;>
    simp [ParseState.report, hPoisoned]

theorem errors_report_ne
    (fault : ParseFault)
    (span : Span)
    (hClean : s.poisoned = false) :
    (s.report fault span).errors ≠ s.errors := by
  simp [ParseState.report, hClean]

theorem fails_errorNode
    (fault : ParseFault) :
    Fails (errorNode fault) s :=
  fun hClean => errors_report_ne fault _ hClean

/- In a whole text both runs are at the same place. -/
theorem Setting.IsWhole.place_eq
    (hWhole : h.IsWhole s) :
    (h.place s).rest = s.rest ∧
      (h.place s).currentSpan = s.currentSpan := by
  have hRest : (h.place s).rest = s.rest := by
    simp [place, hWhole.1]
  refine ⟨hRest, ?_⟩
  unfold ParseState.currentSpan
  rw [hRest]
  change (s.rest.head?.map Lexeme.span).getD h.last = _
  rw [hWhole.2]

theorem Run.errorNode
    (fault : ParseFault) :
    Run h n inside (Parse.errorNode fault)
      (Parse.errorNode fault) s := by
  constructor
  · exact ⟨[], Takes.report n fault s.currentSpan s⟩
  · apply Tracks.of_fails (fails_errorNode fault)
    intro hWhole
    change (Node.failure _ (h.place s).currentSpan,
      (h.place s).report fault (h.place s).currentSpan) = _
    rw [hWhole.place_eq.2, h.place_report]
    rfl

/-
  Lexemes that the lexer has reported poison the statement
  without an error of its own.
-/
theorem Run.poison
    {k : Nat}
    (a : α)
    (hPlain : ∀ l ∈ s.rest.take k, l.kind.isPlain = true)
    (hLength : k ≤ s.rest.length)
    (hFaulty : ∃ l ∈ s.rest.take k, l.kind.isFaulty = true) :
    Run h n inside
      (do
        Parse.skip k
        Parse.poison
        return a)
      (do
        Parse.skip k
        Parse.poison
        return a) s := by
  have hTakes := Takes.advance n k s hPlain
  constructor
  · refine ⟨_, ⟨⟨hTakes.rest, hTakes.last, hTakes.before,
      hTakes.errors, hTakes.active, hTakes.cutShort,
      hTakes.halted, hTakes.deepest⟩, fun _ => rfl, ?_⟩, ?_⟩
    · intro _
      change s.errors.length + 0 ≤ _
      exact Nat.le_add_right _ _
    · intro ds after hAfter hWithin
      rcases hTakes.within ds after hAfter hWithin with
        ⟨es, hEs, hLe, _⟩
      refine ⟨es, hEs.congr rfl, hLe, ?_⟩
      intro _
      constructor
      · intro hClean
        cases hClean
      · intro hFaultless
        rcases hFaulty with ⟨l, hMem, hKind⟩
        rw [hFaultless l hMem] at hKind
        cases hKind
  · intro _
    change (a, { (h.place s).advance k with poisoned := true }) = _
    rw [h.place_advance hLength]
    rfl

/-
  Look at the next lexeme. Where there is none, the first run
  finds an error.
-/
theorem Run.bind_peek_or_fails
    {f g : Option Lexeme → Parse α}
    (hSome : ∀ l ls, s.rest = l :: ls →
      Run h n inside (f (some l)) (g (some l)) s)
    (hNone : s.rest = [] →
      Run h n inside (f none) (g none) s ∧ Fails (f none) s) :
    Run h n inside (peek >>= f) (peek >>= g) s := by
  cases hRest : s.rest with
  | cons l ls => exact Run.bind_peek_of_cons hRest (hSome l ls hRest)
  | nil =>
      rcases hNone hRest with ⟨hRun, hFails⟩
      have hPeek : (peek >>= f) s = f none s := by
        change f s.rest.head? s = _
        rw [hRest]
        rfl
      constructor
      · rw [hPeek]
        exact hRun.takes
      · apply Tracks.of_fails
        · unfold Fails
          rw [hPeek]
          exact hFails
        · intro hWhole
          rw [hPeek]
          change g (h.place s).rest.head? (h.place s) = _
          rw [hWhole.place_eq.1, hRest]
          exact hRun.tracks (.inl hWhole)

theorem Run.unexpected :
    Run h n inside (do Parse.errorNode (← Parse.unexpected))
      (do Parse.errorNode (← Parse.unexpected)) s := by
  have hEq :
      (do Parse.errorNode (← Parse.unexpected)) =
        peek >>= fun next =>
          next.elim (Parse.errorNode .unexpectedEnd) (fun l =>
            Parse.errorNode (.unexpectedToken l.describe)) := by
    funext s
    rcases s with ⟨rest, _⟩
    cases rest <;> rfl
  rw [hEq]
  apply Run.bind_peek_or_fails
  · intro l ls _
    exact Run.errorNode _
  · intro _
    exact ⟨Run.errorNode _, fails_errorNode _⟩

theorem Run.wantedNode
    (wanted : Wanted) :
    Run h n inside (Parse.wantedNode wanted)
      (Parse.wantedNode wanted) s := by
  have hEq :
      Parse.wantedNode wanted =
        peek >>= fun next => Parse.errorNode
          (.expected wanted (next.map Lexeme.describe)) :=
    rfl
  rw [hEq]
  apply Run.bind_peek_or_fails
  · intro l ls _
    exact Run.errorNode _
  · intro _
    exact ⟨Run.errorNode _, fails_errorNode _⟩

theorem fails_wantedNode
    (wanted : Wanted) :
    Fails (Parse.wantedNode wanted) s :=
  fails_errorNode
    (.expected wanted (s.rest.head?.map Lexeme.describe))

theorem expect_of_cons
    {kind : Kind}
    {l : Lexeme}
    {ls : List Lexeme}
    (wanted : Wanted)
    (hRest : s.rest = l :: ls)
    (hKind : l.kind = kind) :
    Parse.expect kind wanted s = (.ok l, s.advance 1) := by
  rw [Parse.expect, Parse.bind_apply, eat_of_cons hRest hKind]
  rfl

theorem expect_of_ne
    {kind : Kind}
    (wanted : Wanted)
    (hKind : ∀ l, s.rest.head? = some l → l.kind ≠ kind) :
    Parse.expect kind wanted s =
      (.error (Parse.wantedNode wanted s).1,
        (Parse.wantedNode wanted s).2) := by
  rw [Parse.expect, Parse.bind_apply, eat_of_ne hKind]
  rfl

/- Take a lexeme of a plain kind, or stand in for it. -/
theorem Run.expect
    {kind : Kind}
    (wanted : Wanted)
    (hPlain : kind.isPlain = true)
    (hEnds : kind.endsText = false) :
    Run h n inside (Parse.expect kind wanted)
      (Parse.expect kind wanted) s := by
  apply Run.bind_eat hPlain hEnds
  · intro l s' _ _ _
    exact Run.pure _
  · intro _
    apply (Run.wantedNode wanted).bind
    intro e s' _
    exact Run.pure _

------------------------------------------------------------
-- Closing delimiters
------------------------------------------------------------

/- What a construct is closed by, or that nothing closes it. -/
inductive Closing
    (n : Nat)
    (closer : Closer)
    (s : ParseState) :
    Except Node Lexeme × ParseState → Prop where
| closed
    (l : Lexeme)
    (ls taken : List Lexeme)
    (s' : ParseState)
    (hTakes : Takes n taken s s')
    (hRest : s'.rest = l :: ls)
    (hKind : l.kind = closer.kind) :
    Closing n closer s (.ok l, s'.advance 1)
| missing
    (e : Node)
    (taken : List Lexeme)
    (s' : ParseState)
    (hTakes : Takes n taken s s')
    (hPoisoned : s'.poisoned = true) :
    Closing n closer s (.error e, s')

/- Take what closes a construct if it comes next. -/
def closeHere
    (closer : Closer)
    (opened : Span) : Parse (Except Node Lexeme) := do
  match ← peek with
  | none =>
      return .error (← Parse.failure
        (.missingTerminator closer.text opened.line)
        opened opened)
  | some _ => Parse.expect closer.kind (.closer closer)

theorem expectClosing_eq
    (closer : Closer)
    (opened : Span) :
    Parse.expectClosing closer opened =
      Parse.skipLineEnds >>= fun _ => closeHere closer opened :=
  rfl

theorem closeHere_of_nil
    (closer : Closer)
    (opened : Span)
    (hRest : s.rest = []) :
    closeHere closer opened s =
      (.error (Node.failure (ParseFault.missingTerminator
          closer.text opened.line).message opened),
        s.report (.missingTerminator closer.text opened.line)
          opened) := by
  rcases s with ⟨rest, _⟩
  cases hRest
  rfl

theorem closeHere_of_cons
    {l : Lexeme}
    {ls : List Lexeme}
    (closer : Closer)
    (opened : Span)
    (hRest : s.rest = l :: ls) :
    closeHere closer opened s =
      Parse.expect closer.kind (.closer closer) s := by
  rcases s with ⟨rest, _⟩
  cases hRest
  rfl

theorem closing_closeHere
    (n : Nat)
    (closer : Closer)
    (opened : Span)
    (s : ParseState) :
    Closing n closer s (closeHere closer opened s) := by
  cases hRest : s.rest with
  | nil =>
      rw [closeHere_of_nil closer opened hRest]
      exact .missing _ _ _ (Takes.report n _ opened s)
        (poisoned_report _ _ _)
  | cons l ls =>
      rw [closeHere_of_cons closer opened hRest]
      rcases head?_cases closer.kind s with
        ⟨m, ms, hRest', hKind⟩ | hOther
      · rw [expect_of_cons _ hRest' hKind]
        exact .closed m ms [] s (Takes.refl n s) hRest' hKind
      · rw [expect_of_ne _ hOther]
        exact .missing _ _ _ (Takes.report n _ _ s)
          (poisoned_report _ _ _)

theorem closing_expectClosing
    (n : Nat)
    (closer : Closer)
    (opened : Span)
    (s : ParseState) :
    Closing n closer s (Parse.expectClosing closer opened s) := by
  rcases Takes.skipLineEnds n s with ⟨taken, hTakes⟩
  rw [expectClosing_eq, Parse.bind_apply]
  have hHere := closing_closeHere n closer opened
    (Parse.skipLineEnds s).2
  generalize closeHere closer opened
    (Parse.skipLineEnds s).2 = r at hHere
  cases hHere with
  | closed l ls taken' s' hTakes' hRest hKind =>
      exact .closed l ls _ s' (hTakes.trans hTakes') hRest hKind
  | missing e taken' s' hTakes' hPoisoned =>
      exact .missing e _ s' (hTakes.trans hTakes') hPoisoned

theorem Closing.steady
    {closer : Closer}
    {r : Except Node Lexeme × ParseState}
    (hClosing : Closing n closer s r) :
    ∃ taken, Steady n taken s r.2 := by
  cases hClosing with
  | closed l ls taken s' hTakes _ _ =>
      exact ⟨_, hTakes.toSteady.trans (Steady.advance n 1 s')⟩
  | missing e taken s' hTakes _ => exact ⟨_, hTakes.toSteady⟩

/- Inside of delimiters both runs see what closes them. -/
theorem tracks_expect
    (kind : Kind)
    (wanted : Wanted) :
    Tracks h true (Parse.expect kind wanted)
      (Parse.expect kind wanted) s := by
  intro hAgrees
  have hHead := hAgrees.sees.head?_append_of_inside
  rcases head?_cases kind s with
    ⟨l, ls, hRest, hKind⟩ | hOther
  · have hPlace : (h.place s).rest = l :: (ls ++ h.after) := by
      simp [Setting.place, hRest]
    rw [expect_of_cons _ hRest hKind,
      expect_of_cons _ hPlace hKind,
      h.place_advance (by simp [hRest])]
  · have hOther' :
        ∀ l, (h.place s).rest.head? = some l →
          l.kind ≠ kind := by
      intro l hSome
      exact hOther l (hHead ▸ hSome)
    have hWanted : Run h 0 true (Parse.wantedNode wanted)
      (Parse.wantedNode wanted) s := Run.wantedNode wanted
    rw [expect_of_ne _ hOther] at hAgrees ⊢
    rw [expect_of_ne _ hOther', hWanted.tracks hAgrees]

theorem tracks_closeHere
    (closer : Closer)
    (opened : Span) :
    Tracks h true (closeHere closer opened)
      (closeHere closer opened) s := by
  intro hAgrees
  cases hRest : s.rest with
  | cons l ls =>
      have hPlace :
          (h.place s).rest = l :: (ls ++ h.after) := by
        simp [Setting.place, hRest]
      rw [closeHere_of_cons closer opened hRest] at hAgrees ⊢
      rw [closeHere_of_cons closer opened hPlace]
      exact tracks_expect _ _ hAgrees
  | nil =>
      rcases hAgrees with hWhole | ⟨hClean, _⟩
      · have hPlace : (h.place s).rest = [] := by
          rw [hWhole.place_eq.1, hRest]
        rw [closeHere_of_nil closer opened hRest,
          closeHere_of_nil closer opened hPlace,
          h.place_report]
      · exact absurd hRest hClean.rest_ne_nil

theorem tracks_expectClosing
    (closer : Closer)
    (opened : Span) :
    Tracks h true (Parse.expectClosing closer opened)
      (Parse.expectClosing closer opened) s := by
  have hSkip : Run h 0 true Parse.skipLineEnds
    Parse.skipLineEnds s := Run.skipLineEnds
  rcases hSkip.takes with ⟨taken, hTakes⟩
  rcases (closing_closeHere 0 closer opened
    (Parse.skipLineEnds s).2).steady with ⟨taken', hSteady⟩
  exact hSkip.tracks.bind hTakes.toMoves hSteady.toMoves
    hSkip.walk.clean (tracks_closeHere closer opened)

end ElixirReader
