import ElixirReader.Proofs.Parser.Delimiters

/-
  This file says what every part of the parser does to the
  state: it takes lexemes from the front of those that are
  left, notes errors behind those noted, and keeps to its own
  side of the delimiters around it.

  A stretch of lexemes is balanced if it closes what is open
  and leaves nothing open. What is behind it stays out of
  reach, even for a faulty statement.

  Key definitions include:
    * `Within`
    * `Barrier`
    * `ParseState.budget`
    * `Moves`
    * `Steady`
    * `Takes`
    * `Passes`

  Main declarations:
    * `Moves.trans`
    * `Takes.trans`
    * `Takes.advance`
    * `Passes.opens`
-/

namespace ElixirReader

------------------------------------------------------------
-- Classes of kinds
------------------------------------------------------------

namespace Kind

/- The kinds behind which statements stand of their own. -/
def nestsStatements : Kind → Bool
| opening .parenthesis => true
| word .do => true
| word .fn => true
| interpolationStart => true
| _ => false

/- The kinds that end statements, and that nothing else takes. -/
def isBarrier : Kind → Bool
| semicolon => true
| closing .parenthesis => true
| interpolationEnd => true
| word .end => true
| _ => false

/- The kinds that any part of the parser may take. -/
def isPlain
    (k : Kind) : Bool :=
  k.isFlat && k != semicolon

theorem isFlat_of_isPlain
    {k : Kind}
    (hPlain : k.isPlain = true) :
    k.isFlat = true := by
  simp [isPlain] at hPlain
  exact hPlain.1

theorem isBarrier_of_isPlain
    {k : Kind}
    (hPlain : k.isPlain = true) :
    k.isBarrier = false := by
  cases k with
  | closing b => cases hPlain
  | word w => cases w <;> first | rfl | cases hPlain
  | semicolon => cases hPlain
  | interpolationEnd => cases hPlain
  | _ => rfl

theorem ne_closing_of_isPlain
    {k : Kind}
    (b : Bracket)
    (hPlain : k.isPlain = true) :
    k ≠ .closing b := by
  rintro rfl
  cases hPlain

end Kind

------------------------------------------------------------
-- Balanced stretches
------------------------------------------------------------

/-
  The lexemes that are left are a stretch that closes what is
  open, and those behind it.
-/
def Within
    (ds : Nest)
    (after : List Lexeme)
    (s : ParseState) : Prop :=
  ∃ ls, s.rest = ls ++ after ∧ ds.behind? ls = some []

/- What is behind a stretch starts with a barrier, if at all. -/
def Barrier : List Lexeme → Prop
| [] => True
| l :: _ => l.kind.isBarrier = true

/- No lexeme has been reported by the lexer. -/
def Faultless
    (ls : List Lexeme) : Prop :=
  ∀ l ∈ ls, l.kind.isFaulty = false

theorem Faultless.append_iff
    {ls ms : List Lexeme} :
    Faultless (ls ++ ms) ↔ Faultless ls ∧ Faultless ms := by
  simp [Faultless, or_imp, forall_and]

/-
  Lexemes in front belong to the stretch if the one right
  behind it is not among them.
-/
theorem Within.take_of_ne
    {ds : Nest}
    {after : List Lexeme}
    {s s' : ParseState}
    {taken : List Lexeme}
    (hWithin : Within ds after s)
    (hRest : s.rest = taken ++ s'.rest)
    (hTaken : ∀ l ∈ taken, after.head? ≠ some l) :
    ∃ es, ds.behind? taken = some es ∧ Within es after s' := by
  rcases hWithin with ⟨ls, hLs, hBehind⟩
  rw [hRest] at hLs
  -- The stretch is at least as long as what is taken.
  rcases List.append_eq_append_iff.mp hLs with
    ⟨more, rfl, hMore⟩ | ⟨more, rfl, hMore⟩
  · rcases Nest.exists_of_behind?_append hBehind with
      ⟨es, hTakenEs, hMoreEs⟩
    exact ⟨es, hTakenEs, more, hMore, hMoreEs⟩
  · cases more with
    | nil =>
        rw [List.append_nil]
        refine ⟨[], hBehind, [], ?_, rfl⟩
        simpa using hMore.symm
    | cons l more =>
        exfalso
        apply hTaken l (by simp)
        rw [hMore]
        rfl

/- Lexemes in front that are no barrier belong to the stretch. -/
theorem Within.take
    {ds : Nest}
    {after : List Lexeme}
    {s s' : ParseState}
    {taken : List Lexeme}
    (hWithin : Within ds after s)
    (hAfter : Barrier after)
    (hRest : s.rest = taken ++ s'.rest)
    (hTaken : ∀ l ∈ taken, l.kind.isBarrier = false) :
    ∃ es, ds.behind? taken = some es ∧ Within es after s' := by
  apply hWithin.take_of_ne hRest
  intro l hMem hHead
  rcases List.head?_eq_some_iff.mp hHead with ⟨ls, rfl⟩
  change l.kind.isBarrier = true at hAfter
  rw [hTaken l hMem] at hAfter
  cases hAfter

/- Plain lexemes in code leave everything open as it is. -/
theorem Within.of_isPlain
    {ds : Nest}
    {after : List Lexeme}
    {s s' : ParseState}
    {taken : List Lexeme}
    (hWithin : Within ds after s)
    (hAfter : Barrier after)
    (hCode : ds.isCode = true)
    (hRest : s.rest = taken ++ s'.rest)
    (hPlain : ∀ l ∈ taken, l.kind.isPlain = true) :
    Within ds after s' := by
  rcases hWithin.take hAfter hRest
      (fun l hMem => Kind.isBarrier_of_isPlain (hPlain l hMem))
    with ⟨es, hBehind, hWithin'⟩
  have hSame : es = ds := by
    apply Nest.behind?_of_isFlat _ hCode hBehind
    intro l hMem
    exact Kind.isFlat_of_isPlain (hPlain l hMem)
  rw [hSame] at hWithin'
  exact hWithin'

/- With something open, the next lexeme belongs to the stretch. -/
theorem Within.next
    {ds : Nest}
    {after : List Lexeme}
    {s s' : ParseState}
    {l : Lexeme}
    (hWithin : Within ds after s)
    (hOpen : ds ≠ [])
    (hRest : s.rest = l :: s'.rest) :
    ∃ es, ds.next? l.kind = some es ∧ Within es after s' := by
  rcases hWithin with ⟨ls, hLs, hBehind⟩
  cases ls with
  | nil =>
      cases hBehind
      exact absurd rfl hOpen
  | cons m ls =>
      rw [hRest, List.cons_append] at hLs
      rcases List.cons.inj hLs with ⟨rfl, hTail⟩
      rcases Nest.exists_of_behind?_cons hBehind with
        ⟨es, hNext, hBehind'⟩
      exact ⟨es, hNext, ls, hTail, hBehind'⟩

/- With something open there is a next lexeme. -/
theorem Within.rest_ne_nil
    {ds : Nest}
    {after : List Lexeme}
    {s : ParseState}
    (hWithin : Within ds after s)
    (hOpen : ds ≠ []) :
    s.rest ≠ [] := by
  rcases hWithin with ⟨ls, hLs, hBehind⟩
  intro hNil
  rw [hNil] at hLs
  rw [(List.append_eq_nil_iff.mp hLs.symm).1] at hBehind
  cases hBehind
  exact hOpen rfl

theorem Within.congr
    {ds : Nest}
    {after : List Lexeme}
    {s s' : ParseState}
    (hWithin : Within ds after s)
    (hRest : s'.rest = s.rest) :
    Within ds after s' := by
  rcases hWithin with ⟨ls, hLs, hBehind⟩
  exact ⟨ls, hRest.trans hLs, hBehind⟩

------------------------------------------------------------
-- Moves
------------------------------------------------------------

/-
  Some lexemes are taken, and errors are noted. At most `n`
  expressions more are parsed inside of one another, no loop
  is given up, and no stop is seen.
-/
structure Moves
    (n : Nat)
    (taken : List Lexeme)
    (s s' : ParseState) : Prop where
  rest : s.rest = taken ++ s'.rest
  last : s'.last = s.last
  before :
    taken ≠ [] ∨ s.before.isSome = true →
      s'.before.isSome = true
  errors : s.errors <+: s'.errors
  active : s'.active = s.active
  cutShort : s'.cutShort = s.cutShort
  halted : s'.halted = s.halted
  deepest : s'.deepest ≤ max s.deepest (s.active + n)

theorem Moves.refl
    (n : Nat)
    (s : ParseState) :
    Moves n [] s s := by
  refine ⟨rfl, rfl, ?_, List.prefix_refl _, rfl, rfl, rfl, ?_⟩
  · rintro (hNil | hBefore)
    · exact absurd rfl hNil
    · exact hBefore
  · exact Nat.le_max_left _ _

theorem Moves.trans
    {n : Nat}
    {taken taken' : List Lexeme}
    {s s' s'' : ParseState}
    (hFirst : Moves n taken s s')
    (hSecond : Moves n taken' s' s'') :
    Moves n (taken ++ taken') s s'' := by
  refine ⟨?_, ?_, ?_, hFirst.errors.trans hSecond.errors, ?_,
    ?_, ?_, ?_⟩
  · rw [hFirst.rest, hSecond.rest, List.append_assoc]
  · rw [hSecond.last, hFirst.last]
  · intro hMoved
    apply hSecond.before
    by_cases hNil : taken = []
    · rcases hMoved with hTaken | hBefore
      · left
        simpa [hNil] using hTaken
      · exact .inr (hFirst.before (.inr hBefore))
    · exact .inr (hFirst.before (.inl hNil))
  · rw [hSecond.active, hFirst.active]
  · rw [hSecond.cutShort, hFirst.cutShort]
  · rw [hSecond.halted, hFirst.halted]
  · have hDeep := hFirst.deepest
    have hDeep' := hSecond.deepest
    rw [hFirst.active] at hDeep'
    omega

/- Fewer lexemes are left, by those that are taken. -/
theorem Moves.length_rest
    {n : Nat}
    {taken : List Lexeme}
    {s s' : ParseState}
    (hMoves : Moves n taken s s') :
    s.rest.length = taken.length + s'.rest.length := by
  rw [hMoves.rest, List.length_append]

/- What is taken is all that is no longer left. -/
theorem Moves.takenSince_eq
    {n : Nat}
    {taken : List Lexeme}
    {s s' : ParseState}
    (hMoves : Moves n taken s s') :
    Parse.takenSince s.rest s'.rest = taken := by
  simp [Parse.takenSince, hMoves.rest]

/- Errors that are the same at the end were so in between. -/
theorem Moves.errors_eq
    {n n' : Nat}
    {taken taken' : List Lexeme}
    {s s' s'' : ParseState}
    (hFirst : Moves n taken s s')
    (hSecond : Moves n' taken' s' s'')
    (hSame : s''.errors = s.errors) :
    s'.errors = s.errors ∧ s''.errors = s'.errors := by
  have hBack : s'.errors <+: s.errors := by
    rw [← hSame]
    exact hSecond.errors
  have hEq : s'.errors = s.errors :=
    hBack.eq_of_length_le hFirst.errors.length_le
  exact ⟨hEq, hSame.trans hEq.symm⟩

------------------------------------------------------------
-- Steady moves
------------------------------------------------------------

/- The number of errors, with one that may still be noted. -/
def ParseState.budget
    (s : ParseState) : Nat :=
  s.errors.length + if s.poisoned then 0 else 1

/-
  A statement that is poisoned stays so. Without statements
  of their own, the lexemes that are taken show one error at
  most.
-/
structure Steady
    (n : Nat)
    (taken : List Lexeme)
    (s s' : ParseState) : Prop extends
    Moves n taken s s' where
  poisoned : s.poisoned = true → s'.poisoned = true
  budget :
    (∀ l ∈ taken, l.kind.nestsStatements = false) →
      s'.budget ≤ s.budget

theorem Steady.refl
    (n : Nat)
    (s : ParseState) :
    Steady n [] s s := by
  refine ⟨Moves.refl n s, ?_, ?_⟩
  · exact fun hPoisoned => hPoisoned
  · exact fun _ => Nat.le_refl _

theorem Steady.trans
    {n : Nat}
    {taken taken' : List Lexeme}
    {s s' s'' : ParseState}
    (hFirst : Steady n taken s s')
    (hSecond : Steady n taken' s' s'') :
    Steady n (taken ++ taken') s s'' := by
  refine ⟨hFirst.toMoves.trans hSecond.toMoves, ?_, ?_⟩
  · intro hPoisoned
    exact hSecond.poisoned (hFirst.poisoned hPoisoned)
  · intro hKinds
    apply Nat.le_trans
    · apply hSecond.budget
      intro l hMem
      exact hKinds l (List.mem_append_right taken hMem)
    · apply hFirst.budget
      intro l hMem
      exact hKinds l (List.mem_append_left taken' hMem)

/- A statement that is not poisoned was not so before. -/
theorem Steady.poisoned_eq_false
    {n : Nat}
    {taken : List Lexeme}
    {s s' : ParseState}
    (hSteady : Steady n taken s s')
    (hClean : s'.poisoned = false) :
    s.poisoned = false := by
  cases hPoisoned : s.poisoned with
  | false => rfl
  | true =>
      rw [hSteady.poisoned hPoisoned] at hClean
      cases hClean

/-
  Among lexemes that the lexer has not reported, a statement
  becomes poisoned by an error of its own only.
-/
def Speaks
    (taken : List Lexeme)
    (s s' : ParseState) : Prop :=
  Faultless taken →
    s.poisoned = false →
      s'.poisoned = true → s'.errors ≠ s.errors

theorem Speaks.trans
    {n : Nat}
    {taken taken' : List Lexeme}
    {s s' s'' : ParseState}
    (hFirst : Speaks taken s s')
    (hSecond : s'.poisoned = false → Speaks taken' s' s'')
    (hMoves : Moves n taken s s')
    (hMoves' : Moves n taken' s' s'') :
    Speaks (taken ++ taken') s s'' := by
  intro hFaultless hClean hPoisoned hSame
  rw [Faultless.append_iff] at hFaultless
  have hErrors := hMoves.errors_eq hMoves' hSame
  cases hMiddle : s'.poisoned with
  | false =>
      exact hSecond hMiddle hFaultless.2 hMiddle hPoisoned
        hErrors.2
  | true =>
      exact hFirst hFaultless.1 hClean hMiddle hErrors.1

/-
  A part that may be found faulty. Whatever is open, what is
  left still closes it, or what is open by then, and no
  parenthesis is closed that was open before. If the statement
  is in order, the same is open as before.
-/
structure Takes
    (n : Nat)
    (taken : List Lexeme)
    (s s' : ParseState) : Prop extends
    Steady n taken s s' where
  within : ∀ ds after,
    Barrier after →
      Within ds after s →
        ∃ es, Within es after s' ∧
          ds.parentheses ≤ es.parentheses ∧
          (ds.isCode = true →
            (s'.poisoned = false → es = ds) ∧
              Speaks taken s s')

theorem Takes.refl
    (n : Nat)
    (s : ParseState) :
    Takes n [] s s := by
  refine ⟨Steady.refl n s, ?_⟩
  intro ds after hAfter hWithin
  refine ⟨ds, hWithin, Nat.le_refl _, ?_⟩
  intro hCode
  constructor
  · exact fun _ => rfl
  · intro _ hClean hPoisoned
    rw [hClean] at hPoisoned
    cases hPoisoned

theorem Takes.trans
    {n : Nat}
    {taken taken' : List Lexeme}
    {s s' s'' : ParseState}
    (hFirst : Takes n taken s s')
    (hSecond : Takes n taken' s' s'') :
    Takes n (taken ++ taken') s s'' := by
  refine ⟨hFirst.toSteady.trans hSecond.toSteady, ?_⟩
  intro ds after hAfter hWithin
  rcases hFirst.within ds after hAfter hWithin with
    ⟨es, hWithin', hLe, hCode⟩
  rcases hSecond.within es after hAfter hWithin' with
    ⟨fs, hWithin'', hLe', hCode'⟩
  refine ⟨fs, hWithin'', Nat.le_trans hLe hLe', ?_⟩
  intro hIsCode
  rcases hCode hIsCode with ⟨hSame, hSpeaks⟩
  constructor
  · intro hClean
    have hMiddle := hSecond.poisoned_eq_false hClean
    have hEq := hSame hMiddle
    rw [← hEq] at hIsCode
    rw [(hCode' hIsCode).1 hClean, hEq]
  · apply hSpeaks.trans _ hFirst.toMoves hSecond.toMoves
    intro hMiddle
    rw [← hSame hMiddle] at hIsCode
    exact (hCode' hIsCode).2

/-
  A part that is in order as far as delimiters go, if what is
  left is balanced: `ds` are open before it and `es` behind.
-/
structure Passes
    (n : Nat)
    (ds es : Nest)
    (taken : List Lexeme)
    (s s' : ParseState) : Prop extends
    Steady n taken s s' where
  within : ∀ fs after,
    Barrier after →
      Within (ds ++ fs) after s →
        Within (es ++ fs) after s' ∧ Speaks taken s s'

theorem Passes.takes
    {n : Nat}
    {taken : List Lexeme}
    {s s' : ParseState}
    (hPasses : Passes n [] [] taken s s') :
    Takes n taken s s' := by
  refine ⟨hPasses.toSteady, ?_⟩
  intro ds after hAfter hWithin
  rcases hPasses.within ds after hAfter hWithin with
    ⟨hWithin', hSpeaks⟩
  exact ⟨ds, hWithin', Nat.le_refl _,
    fun _ => ⟨fun _ => rfl, hSpeaks⟩⟩

------------------------------------------------------------
-- Taking lexemes
------------------------------------------------------------

theorem Steady.advance
    (n k : Nat)
    (s : ParseState) :
    Steady n (s.rest.take k) s (s.advance k) := by
  refine ⟨⟨?_, rfl, ?_, List.prefix_refl _, rfl, rfl, rfl, ?_⟩,
    fun hPoisoned => hPoisoned, fun _ => Nat.le_refl _⟩
  · exact (List.take_append_drop k s.rest).symm
  · rintro (hTaken | hBefore)
    · change ((s.rest.take k).getLast?.map _ |>.or _).isSome = _
      cases hLast : (s.rest.take k).getLast? with
      | none => exact absurd (List.getLast?_eq_none_iff.mp hLast) hTaken
      | some l => rfl
    · change ((s.rest.take k).getLast?.map _ |>.or _).isSome = _
      simp [hBefore]
  · exact Nat.le_max_left _ _

/- Taking lexemes does not poison a statement. -/
theorem speaks_advance
    (k : Nat)
    (taken : List Lexeme)
    (s : ParseState) :
    Speaks taken s (s.advance k) := by
  intro _ hClean hPoisoned
  change s.poisoned = true at hPoisoned
  rw [hClean] at hPoisoned
  cases hPoisoned

theorem Takes.advance
    (n k : Nat)
    (s : ParseState)
    (hPlain : ∀ l ∈ s.rest.take k, l.kind.isPlain = true) :
    Takes n (s.rest.take k) s (s.advance k) := by
  refine ⟨Steady.advance n k s, ?_⟩
  intro ds after hAfter hWithin
  rcases hWithin.take hAfter
      (Steady.advance n k s).rest
      (fun l hMem => Kind.isBarrier_of_isPlain (hPlain l hMem))
    with ⟨es, hBehind, hWithin'⟩
  refine ⟨es, hWithin', ?_, ?_⟩
  · apply Nest.parentheses_le_of_behind? _ hBehind
    intro l hMem
    exact Kind.ne_closing_of_isPlain _ (hPlain l hMem)
  · intro hCode
    refine ⟨fun _ => ?_, speaks_advance k _ s⟩
    apply Nest.behind?_of_isFlat _ hCode hBehind
    intro l hMem
    exact Kind.isFlat_of_isPlain (hPlain l hMem)

theorem ParseState.take_one
    {s : ParseState}
    {l : Lexeme}
    {ls : List Lexeme}
    (hRest : s.rest = l :: ls) :
    s.rest.take 1 = [l] ∧ (s.advance 1).rest = ls := by
  constructor
  · simp [hRest]
  · simp [advance, hRest]

theorem Takes.advance_one
    (n : Nat)
    {s : ParseState}
    {l : Lexeme}
    {ls : List Lexeme}
    (hRest : s.rest = l :: ls)
    (hPlain : l.kind.isPlain = true) :
    Takes n [l] s (s.advance 1) := by
  have hTake := (ParseState.take_one hRest).1
  rw [← hTake]
  apply Takes.advance
  intro m hMem
  rw [hTake, List.mem_singleton] at hMem
  rw [hMem]
  exact hPlain

/- A lexeme of some kinds comes next. -/
theorem exists_of_head?_any
    {p : Lexeme → Bool}
    {ls : List Lexeme}
    (hAny : ls.head?.any p = true) :
    ∃ l rest, ls = l :: rest ∧ p l = true := by
  cases ls with
  | nil => cases hAny
  | cons l rest => exact ⟨l, rest, rfl, hAny⟩

/- Taking one lexeme of some kinds, and taking two of them. -/
theorem take_one_of_kind
    {p : Kind → Bool}
    {l : Lexeme}
    (ls : List Lexeme)
    (hKind : p l.kind = true) :
    (∀ m ∈ (l :: ls).take 1, p m.kind = true) ∧
      1 ≤ (l :: ls).length := by
  refine ⟨?_, by simp⟩
  intro m hMem
  rw [List.take_succ_cons, List.take_zero,
    List.mem_singleton] at hMem
  rw [hMem]
  exact hKind

theorem take_two_of_kind
    {p : Kind → Bool}
    {l m : Lexeme}
    (ls : List Lexeme)
    (hKind : p l.kind = true)
    (hKind' : p m.kind = true) :
    (∀ k ∈ (l :: m :: ls).take 2, p k.kind = true) ∧
      2 ≤ (l :: m :: ls).length := by
  refine ⟨?_, by simp⟩
  intro k hMem
  rw [List.take_succ_cons] at hMem
  rcases List.mem_cons.mp hMem with rfl | hMem
  · exact hKind
  · exact (take_one_of_kind ls hKind').1 k hMem

/- What opens a delimiter. -/
theorem Passes.opens
    (n : Nat)
    {s : ParseState}
    {l : Lexeme}
    {ls : List Lexeme}
    {d : Delimiter}
    (hRest : s.rest = l :: ls)
    (hOpener : l.kind.opener? = some d) :
    Passes n [] [d] [l] s (s.advance 1) := by
  have hTake := ParseState.take_one hRest
  have hSteady := Steady.advance n 1 s
  rw [hTake.1] at hSteady
  refine ⟨hSteady, ?_⟩
  intro fs after hAfter hWithin
  refine ⟨?_, speaks_advance 1 _ s⟩
  have hBarrier :
      ∀ m ∈ [l], m.kind.isBarrier = false := by
    intro m hMem
    rw [List.mem_singleton] at hMem
    subst hMem
    cases hKind : m.kind with
    | closing b => rw [hKind] at hOpener; cases hOpener
    | word w =>
        rw [hKind] at hOpener
        cases w <;> first | rfl | cases hOpener
    | semicolon => rw [hKind] at hOpener; cases hOpener
    | interpolationEnd => rw [hKind] at hOpener; cases hOpener
    | _ => rfl
  rcases hWithin.take hAfter hSteady.rest hBarrier with
    ⟨es, hBehind, hWithin'⟩
  rcases Nest.exists_of_behind?_cons hBehind with
    ⟨gs, hNext, hNil⟩
  cases hNil
  rw [Nest.next?_of_opener? hOpener hNext] at hWithin'
  exact hWithin'

------------------------------------------------------------
-- Brackets
------------------------------------------------------------

/-
  Brackets around a part. If the part is faulty, the bracket
  behind it may belong to another one, but it never closes a
  parenthesis that was open before.
-/
theorem Takes.bracketed
    {n : Nat}
    {taken : List Lexeme}
    {s s' : ParseState}
    {b : Bracket}
    {l m : Lexeme}
    {ls ms : List Lexeme}
    (hRest : s.rest = l :: ls)
    (hOpening : l.kind = .opening b)
    (hInside : Takes n taken (s.advance 1) s')
    (hRest' : s'.rest = m :: ms)
    (hClosing : m.kind = .closing b) :
    Takes n (l :: taken ++ [m]) s (s'.advance 1) := by
  have hOpens : Passes n [] [.bracket b] [l] s (s.advance 1) :=
    Passes.opens n hRest (by rw [hOpening]; rfl)
  have hTake := ParseState.take_one hRest'
  have hClose := Steady.advance n 1 s'
  rw [hTake.1] at hClose
  have hSteady :=
    (hOpens.toSteady.trans hInside.toSteady).trans hClose
  refine ⟨hSteady, ?_⟩
  intro ds after hAfter hWithin
  have hOpen := (hOpens.within ds after hAfter hWithin).1
  rcases hInside.within _ after hAfter hOpen with
    ⟨es, hWithin', hLe, hCode⟩
  -- The bracket that comes next is no barrier out of reach.
  have hNext :
      ∃ fs, es.next? m.kind = some fs ∧
        Within fs after (s'.advance 1) := by
    by_cases hKind : b = .parenthesis
    · apply hWithin'.next _ hClose.rest
      rintro rfl
      subst hKind
      simp [Nest.parentheses] at hLe
    · have hBarrier : ∀ k ∈ [m], k.kind.isBarrier = false := by
        intro k hMem
        rw [List.mem_singleton] at hMem
        rw [hMem, hClosing]
        cases b <;> first | rfl | exact absurd rfl hKind
      rcases hWithin'.take hAfter hClose.rest hBarrier with
        ⟨fs, hBehind, hWithin''⟩
      rcases Nest.exists_of_behind?_cons hBehind with
        ⟨gs, hNext, hNil⟩
      cases hNil
      exact ⟨_, hNext, hWithin''⟩
  rcases hNext with ⟨fs, hNext, hWithin''⟩
  have hEs : es = .bracket b :: fs :=
    Nest.next?_of_closer? (by rw [hClosing]; rfl) hNext
  subst hEs
  refine ⟨fs, hWithin'', ?_, ?_⟩
  · simpa [Nest.parentheses, List.count_cons] using hLe
  · intro _
    rcases hCode rfl with ⟨hSame, hSpeaks⟩
    constructor
    · intro hClean
      exact (List.cons.inj (hSame hClean)).2
    · intro hFaultless
      apply hSpeaks
      intro k hMem
      exact hFaultless k (by simp [hMem])

/- A bracket that is not closed poisons the statement. -/
theorem Takes.unclosed
    {n : Nat}
    {taken : List Lexeme}
    {s s' : ParseState}
    {b : Bracket}
    {l : Lexeme}
    {ls : List Lexeme}
    (hRest : s.rest = l :: ls)
    (hOpening : l.kind = .opening b)
    (hInside : Takes n taken (s.advance 1) s')
    (hPoisoned : s'.poisoned = true) :
    Takes n (l :: taken) s s' := by
  have hOpens : Passes n [] [.bracket b] [l] s (s.advance 1) :=
    Passes.opens n hRest (by rw [hOpening]; rfl)
  refine ⟨hOpens.toSteady.trans hInside.toSteady, ?_⟩
  intro ds after hAfter hWithin
  have hOpen := (hOpens.within ds after hAfter hWithin).1
  rcases hInside.within _ after hAfter hOpen with
    ⟨es, hWithin', hLe, hCode⟩
  refine ⟨es, hWithin', ?_, ?_⟩
  · apply Nat.le_trans _ hLe
    simp [Nest.parentheses, List.count_cons]
  · intro _
    constructor
    · intro hClean
      rw [hPoisoned] at hClean
      cases hClean
    · intro hFaultless
      apply (hCode rfl).2
      intro k hMem
      exact hFaultless k (List.mem_cons_of_mem l hMem)

end ElixirReader
