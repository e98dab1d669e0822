import ElixirReader.Proofs.Errors.Reading
import ElixirReader.Proofs.Likeness.Ahead
import ElixirReader.Proofs.Likeness.Places
import ElixirReader.Proofs.Parser.Retaining

/-
  This file lets two runs go side by side, over lists of
  lexemes that match. As long as the first one notes no error
  the second one gives what is alike, unless a loop is given
  up, or, where the second may be nested less deeply than the
  first, it comes to its limit.

  Key definitions include:
    * `Kind.isOfStatements`
    * `Paired`
    * `Escapes`
    * `Mirrors`
    * `alike`
    * `Mirrored`

  Main declarations:
    * `Paired.take_one`
    * `Mirrors.bind`
    * `Mirrors.bind_eat`
    * `Mirrors.expectClosing`
-/

namespace ElixirReader

open Parse
open Placed (unplaced)

variable {α β : Type}
variable {deep : Bool}
variable {ds es : Nest}
variable {l l' : Lexeme}
variable {ls ls' : List Lexeme}
variable {place place' : List Lexeme → List Lexeme → Prop}
variable {s s' : ParseState}

------------------------------------------------------------
-- Two states
------------------------------------------------------------

/- The kinds that neither start nor end a text or what is in one. -/
def Kind.isOfStatements
    (k : Kind) : Bool :=
  k.isFlat || k.isUnframed

/-
  Two states behind which nothing has been found faulty. The
  first one is in a text that the lexer finds in order; `ds` are
  the literals and interpolations that are open.
-/
structure Paired
    (ds : Nest)
    (place : List Lexeme → List Lexeme → Prop)
    (s s' : ParseState) : Prop where
  poisoned : s.poisoned = false
  errors : s.errors = []
  faultless : Faultless s.rest
  framed : ds.framedBehind? s.rest = some []
  poisoned' : s'.poisoned = false
  errors' : s'.errors = []
  place : place s.rest s'.rest

namespace Paired

theorem mono
    (hPaired : Paired ds place s s')
    (hPlace : place s.rest s'.rest → place' s.rest s'.rest) :
    Paired ds place' s s' :=
  { hPaired with place := hPlace hPaired.place }

theorem heads_of_tight
    (hPaired : Paired ds Tight s s') :
    Paired ds Heads s s' :=
  hPaired.mono Heads.of_tight

theorem heads_of_begins
    (hPaired : Paired ds Begins s s') :
    Paired ds Heads s s' :=
  hPaired.mono Heads.of_begins

theorem loose_of_heads
    (hPaired : Paired ds Heads s s') :
    Paired ds Loose s s' :=
  hPaired.mono Heads.loose

theorem loose_of_tight
    (hPaired : Paired ds Tight s s') :
    Paired ds Loose s s' :=
  hPaired.mono Matches.loose

/- A lexeme that is left is in order. -/
theorem isFaulty_head
    (hPaired : Paired ds place s s')
    (hRest : s.rest = l :: ls) :
    l.kind.isFaulty = false := by
  apply hPaired.faultless
  rw [hRest]
  exact List.mem_cons_self

theorem advance
    {n m : Nat}
    (hPaired : Paired ds place s s')
    (hFramed : ds.framedBehind? (s.rest.take n) = some es)
    (hPlace : place' (s.rest.drop n) (s'.rest.drop m)) :
    Paired es place' (s.advance n) (s'.advance m) := by
  have hSplit := (List.take_append_drop n s.rest).symm
  have hFaultless := hPaired.faultless
  have hBehind := hPaired.framed
  rw [hSplit, Faultless.append_iff] at hFaultless
  rw [hSplit, Nest.framedBehind?_append, hFramed] at hBehind
  exact ⟨hPaired.poisoned, hPaired.errors, hFaultless.2, hBehind,
    hPaired.poisoned', hPaired.errors', hPlace⟩

/- Take some lexemes of statements. -/
theorem advance_of_isOfStatements
    {n m : Nat}
    (hPaired : Paired ds place s s')
    (hCode : ds.isCode = true)
    (hKinds : ∀ l ∈ s.rest.take n, l.kind.isOfStatements = true)
    (hPlace : place' (s.rest.drop n) (s'.rest.drop m)) :
    Paired ds place' (s.advance n) (s'.advance m) := by
  apply hPaired.advance _ hPlace
  generalize s.rest.take n = taken at hKinds
  induction taken with
  | nil => rfl
  | cons l ls ih =>
      have hKind := hKinds l List.mem_cons_self
      rw [Kind.isOfStatements, Bool.or_eq_true] at hKind
      rw [Nest.framedBehind?_cons,
        Nest.framed?_of_isCode hCode hKind]
      exact ih fun m hMem => hKinds m (List.mem_cons_of_mem l hMem)

/- Take one lexeme. -/
theorem take_one
    (hPaired : Paired ds place s s')
    (hRest : s.rest = l :: ls)
    (hRest' : s'.rest = l' :: ls')
    (hFramed : ds.framed? l.kind = some es)
    (hPlace : place' ls ls') :
    Paired es place' (s.advance 1) (s'.advance 1) := by
  apply hPaired.advance
  · rw [hRest]
    change (ds.framed? l.kind).bind _ = _
    rw [hFramed]
    rfl
  · rw [hRest, hRest']
    exact hPlace

theorem take_statement
    (hPaired : Paired ds place s s')
    (hCode : ds.isCode = true)
    (hRest : s.rest = l :: ls)
    (hRest' : s'.rest = l' :: ls')
    (hKind : l.kind.isOfStatements = true)
    (hPlace : place' ls ls') :
    Paired ds place' (s.advance 1) (s'.advance 1) := by
  rw [Kind.isOfStatements, Bool.or_eq_true] at hKind
  exact hPaired.take_one hRest hRest'
    (Nest.framed?_of_isCode hCode hKind) hPlace

/- The lexemes in front. -/
theorem head_cases
    (hPaired : Paired ds Heads s s') :
    s.rest = [] ∧ s'.rest = [] ∨
      ∃ l l' ls ls', s.rest = l :: ls ∧ s'.rest = l' :: ls' ∧
        l.Same l' ∧ Matches ⟨l.kind, true⟩ ls ls' := by
  have hPlace := hPaired.place
  generalize s.rest = ms at *
  generalize s'.rest = ms' at *
  cases hPlace with
  | nil => exact .inl ⟨rfl, rfl⟩
  | cons hSame hMore =>
      exact .inr ⟨_, _, _, _, rfl, rfl, hSame, hMore⟩

theorem exists_head
    (hPaired : Paired ds Heads s s')
    (hRest : s.rest = l :: ls) :
    ∃ l' ls', s'.rest = l' :: ls' ∧ l.Same l' ∧
      Matches ⟨l.kind, true⟩ ls ls' := by
  rcases hPaired.head_cases with
    ⟨hNil, _⟩ | ⟨m, l', ms, ls', hRest', hNew, hSame, hMore⟩
  · rw [hRest] at hNil
    cases hNil
  · rw [hRest] at hRest'
    cases hRest'
    exact ⟨l', ls', hNew, hSame, hMore⟩

/- Take a lexeme that no newline may follow. -/
theorem take_tight
    (hPaired : Paired ds Heads s s')
    (hCode : ds.isCode = true)
    (hRest : s.rest = l :: ls)
    (hKind : l.kind.isOfStatements = true)
    (hAdmits : ∀ next,
      Before.admitsBreak ⟨l.kind, true⟩ next = false) :
    ∃ l' ls', s'.rest = l' :: ls' ∧ l.Same l' ∧
      Paired ds Tight (s.advance 1) (s'.advance 1) := by
  rcases hPaired.exists_head hRest with ⟨l', ls', hRest', hSame, hMore⟩
  exact ⟨l', ls', hRest', hSame, hPaired.take_statement hCode hRest
    hRest' hKind (hMore.tight hAdmits)⟩

/- Take a lexeme behind which something has to follow. -/
theorem take_awaits
    (hPaired : Paired ds Heads s s')
    (hCode : ds.isCode = true)
    (hRest : s.rest = l :: ls)
    (hKind : l.kind.isOfStatements = true)
    (hEnds : l.kind.endsOperand = false) :
    ∃ l' ls', s'.rest = l' :: ls' ∧ l.Same l' ∧
      Paired ds Awaits (s.advance 1) (s'.advance 1) := by
  rcases hPaired.exists_head hRest with ⟨l', ls', hRest', hSame, hMore⟩
  exact ⟨l', ls', hRest', hSame, hPaired.take_statement hCode hRest
    hRest' hKind ⟨_, hEnds, hMore⟩⟩

/- Only what is left, the errors and the poison matter. -/
theorem congr
    {t t' : ParseState}
    (hPaired : Paired ds place s s')
    (hRest : t.rest = s.rest)
    (hErrors : t.errors = s.errors)
    (hPoisoned : t.poisoned = false)
    (hRest' : t'.rest = s'.rest)
    (hErrors' : t'.errors = s'.errors)
    (hPoisoned' : t'.poisoned = false) :
    Paired ds place t t' := by
  refine ⟨hPoisoned, hErrors.trans hPaired.errors, ?_, ?_,
    hPoisoned', hErrors'.trans hPaired.errors', ?_⟩
  · rw [hRest]
    exact hPaired.faultless
  · rw [hRest]
    exact hPaired.framed
  · rw [hRest, hRest']
    exact hPaired.place

end Paired

------------------------------------------------------------
-- Two runs
------------------------------------------------------------

/- Why two runs need not be compared any further. -/
def Escapes
    (deep : Bool)
    (s s' : ParseState) : Prop :=
  s.errors ≠ [] ∨ s.cutShort = true ∨ s'.cutShort = true ∨
    deep = true ∧ ∃ e ∈ s'.errors, e.fault = .tooDeeplyNested

theorem Escapes.later
    {t t' : ParseState}
    (hEscapes : Escapes deep s s')
    (hLater : Later s t)
    (hLater' : Later s' t') :
    Escapes deep t t' := by
  rcases hEscapes with hErrors | hCut | hCut' | ⟨hDeep, e, hMem, hFault⟩
  · left
    intro hNone
    apply hErrors
    have hSub := hLater.errors
    rw [hNone] at hSub
    exact List.eq_nil_of_subset_nil hSub
  · exact .inr (.inl (hLater.cutShort hCut))
  · exact .inr (.inr (.inl (hLater'.cutShort hCut')))
  · exact .inr (.inr (.inr ⟨hDeep, e, hLater'.errors hMem, hFault⟩))

/- What is told about two results and the states that come with them. -/
abbrev Post (α : Type) :=
  α → α → ParseState → ParseState → Prop

/- Two parts that keep together. -/
def Mirrors
    (deep : Bool)
    (post : Post α)
    (p q : Parse α)
    (s s' : ParseState) : Prop :=
  Escapes deep (p s).2 (q s').2 ∨
    post (p s).1 (q s').1 (p s).2 (q s').2

/- Results that are alike, at places that match. -/
def alike
    [Placed α]
    (ds : Nest)
    (place : List Lexeme → List Lexeme → Prop) : Post α :=
  fun a b s s' => Alike a b ∧ Paired ds place s s'

namespace Mirrors

variable {post : Post α}
variable {post' : Post β}
variable {p q : Parse α}
variable {f g : α → Parse β}

theorem of_eq
    {p' q' : Parse α}
    {t t' : ParseState}
    (hMirrors : Mirrors deep post p' q' t t')
    (hEq : p s = p' t)
    (hEq' : q s' = q' t') :
    Mirrors deep post p q s s' := by
  unfold Mirrors
  rw [hEq, hEq']
  exact hMirrors

theorem pure
    {a b : α}
    (hPost : post a b s s') :
    Mirrors deep post (pure a) (pure b) s s' :=
  .inr hPost

/- One part behind another. -/
theorem bind_of_retains
    (hFirst : Mirrors deep post p q s s')
    (hRetains : ∀ a, Retains (f a))
    (hRetains' : ∀ a, Retains (g a))
    (hSecond : ∀ a b t t', post a b t t' →
      Mirrors deep post' (f a) (g b) t t') :
    Mirrors deep post' (p >>= f) (q >>= g) s s' := by
  rcases hFirst with hEscapes | hPost
  · exact .inl (hEscapes.later ((hRetains _).later _)
      ((hRetains' _).later _))
  · exact hSecond _ _ _ _ hPost

theorem bind
    [hRetains : ∀ a, Retains (f a)]
    [hRetains' : ∀ a, Retains (g a)]
    (hFirst : Mirrors deep post p q s s')
    (hSecond : ∀ a b t t', post a b t t' →
      Mirrors deep post' (f a) (g b) t t') :
    Mirrors deep post' (p >>= f) (q >>= g) s s' :=
  hFirst.bind_of_retains hRetains hRetains' hSecond

/- The same, with what the first part leaves as it is. -/
theorem bind_later
    [Retains p]
    [Retains q]
    (hFirst : Mirrors deep post p q s s')
    (hRetains : ∀ a, Retains (f a))
    (hRetains' : ∀ a, Retains (g a))
    (hSecond : ∀ a b t t', Later s t → Later s' t' →
      post a b t t' → Mirrors deep post' (f a) (g b) t t') :
    Mirrors deep post' (p >>= f) (q >>= g) s s' := by
  rcases hFirst with hEscapes | hPost
  · exact .inl (hEscapes.later ((hRetains _).later _)
      ((hRetains' _).later _))
  · exact hSecond _ _ _ _ (Retains.later _) (Retains.later _) hPost

/- A part of which it is known what it does. -/
theorem bind_eq
    {a b : α}
    {t t' : ParseState}
    (hFirst : p s = (a, t))
    (hFirst' : q s' = (b, t'))
    (hSecond : Mirrors deep post' (f a) (g b) t t') :
    Mirrors deep post' (p >>= f) (q >>= g) s s' := by
  unfold Mirrors
  rw [Parse.bind_apply, Parse.bind_apply, hFirst, hFirst']
  exact hSecond

/- Parts that only look at the state. -/
theorem bind_rest
    {f g : List Lexeme → Parse β}
    (hMirrors : Mirrors deep post' (f s.rest) (g s'.rest) s s') :
    Mirrors deep post' (Parse.rest >>= f) (Parse.rest >>= g) s s' :=
  bind_eq rfl rfl hMirrors

theorem bind_peek
    {f g : Option Lexeme → Parse β}
    (hMirrors :
      Mirrors deep post' (f s.rest.head?) (g s'.rest.head?) s s') :
    Mirrors deep post' (peek >>= f) (peek >>= g) s s' :=
  bind_eq rfl rfl hMirrors

theorem bind_isAt
    {f g : Bool → Parse β}
    {kind : Kind}
    (hHeads : Heads s.rest s'.rest)
    (hMirrors : Mirrors deep post'
      (f (s.rest.head?.any (·.kind == kind)))
      (g (s.rest.head?.any (·.kind == kind))) s s') :
    Mirrors deep post' (isAt kind >>= f) (isAt kind >>= g) s s' := by
  apply bind_eq (a := s.rest.head?.any (·.kind == kind))
    (b := s.rest.head?.any (·.kind == kind)) rfl _ hMirrors
  rw [← hHeads.isSome_head?_eq (· == kind)]
  rfl

theorem bind_currentSpan
    {f g : Span → Parse β}
    (hMirrors : ∀ x y, Mirrors deep post' (f x) (g y) s s') :
    Mirrors deep post' (currentSpan >>= f) (currentSpan >>= g)
      s s' :=
  bind_eq rfl rfl (hMirrors _ _)

theorem bind_previousSpan
    {f g : Span → Parse β}
    (hMirrors : ∀ x y, Mirrors deep post' (f x) (g y) s s') :
    Mirrors deep post' (previousSpan >>= f) (previousSpan >>= g)
      s s' :=
  bind_eq rfl rfl (hMirrors _ _)

theorem bind_skip
    {f g : Unit → Parse β}
    {n m : Nat}
    (hMirrors :
      Mirrors deep post' (f ()) (g ()) (s.advance n) (s'.advance m)) :
    Mirrors deep post' (Parse.skip n >>= f) (Parse.skip m >>= g)
      s s' :=
  bind_eq rfl rfl hMirrors

------------------------------------------------------------
-- Leaving off
------------------------------------------------------------

/- An error in the first run leaves nothing to compare. -/
theorem of_errors
    (hErrors : (p s).2.errors ≠ []) :
    Mirrors deep post p q s s' :=
  .inl (.inl hErrors)

theorem of_fails
    (hPaired : Paired ds place s s')
    (hFails : Fails p s) :
    Mirrors deep post p q s s' := by
  apply of_errors
  rw [← hPaired.errors]
  exact hFails hPaired.poisoned

/- What follows an error does not take it back. -/
theorem bind_of_fails
    [∀ a, Retains (f a)]
    {r : Parse β}
    (hPaired : Paired ds place s s')
    (hFails : Fails p s) :
    Mirrors deep post' (p >>= f) r s s' := by
  apply of_errors
  intro hNone
  apply hFails hPaired.poisoned
  have hSub := ((inferInstance : Retains (f (p s).1)).later
    (p s).2).errors
  rw [Parse.bind_apply] at hNone
  rw [hNone] at hSub
  rw [hPaired.errors]
  exact List.eq_nil_of_subset_nil hSub

theorem cutOff_left
    {a : α} :
    Mirrors deep post
      (do
        Parse.cutOff
        return a) q s s' :=
  .inl (.inr (.inl rfl))

theorem cutOff_right
    {a : α} :
    Mirrors deep post p
      (do
        Parse.cutOff
        return a) s s' :=
  .inl (.inr (.inr (.inl rfl)))

------------------------------------------------------------
-- Taking lexemes
------------------------------------------------------------

theorem isOfStatements_of_isSeparator
    {k : Kind}
    (hSeparator : isSeparator k = true) :
    k.isOfStatements = true := by
  cases k <;> first | rfl | cases hSeparator

/- Take a run of newlines or separators. -/
theorem bind_skipRun
    {f g : Unit → Parse β}
    (run : Kind → Bool)
    (hPaired : Paired ds place s s')
    (hCode : ds.isCode = true)
    (hRun : ∀ k, run k = true → isSeparator k = true)
    (hPlace : place' (dropRun run s.rest) (dropRun run s'.rest))
    (hMirrors : ∀ t t', t.rest = dropRun run s.rest →
      Paired ds place' t t' → Mirrors deep post' (f ()) (g ()) t t') :
    Mirrors deep post' (Parse.skip (runLength run s.rest) >>= f)
      (Parse.skip (runLength run s'.rest) >>= g) s s' := by
  apply bind_skip
  apply hMirrors
  · exact drop_runLength run s.rest
  · apply hPaired.advance_of_isOfStatements hCode
    · intro l hMem
      exact isOfStatements_of_isSeparator
        (hRun _ (of_mem_take_runLength hMem))
    · rw [drop_runLength, drop_runLength]
      exact hPlace

theorem isSeparator_of_isLineEnd
    (k : Kind)
    (hLine : isLineEnd k = true) :
    isSeparator k = true := by
  rw [isSeparator, Bool.or_eq_true]
  exact .inl hLine

/- Newlines at which nothing has to be continued. -/
theorem bind_skipLineEnds
    {f g : Unit → Parse β}
    (hPaired : Paired ds Loose s s')
    (hCode : ds.isCode = true)
    (hMirrors : ∀ t t', Paired ds Heads t t' →
      Mirrors deep post' (f ()) (g ()) t t') :
    Mirrors deep post' (skipLineEnds >>= f) (skipLineEnds >>= g)
      s s' := by
  have hSkip := bind_skipRun isLineEnd hPaired hCode
    isSeparator_of_isLineEnd hPaired.place
    fun t t' _ => hMirrors t t'
  exact hSkip.of_eq rfl rfl

/- Newlines behind which an operand begins. -/
theorem bind_skipLineEnds_begins
    {f g : Unit → Parse β}
    (hPaired : Paired ds Afresh s s')
    (hCode : ds.isCode = true)
    (hMirrors : ∀ t t', Paired ds Begins t t' →
      Mirrors deep post' (f ()) (g ()) t t') :
    Mirrors deep post' (skipLineEnds >>= f) (skipLineEnds >>= g)
      s s' := by
  have hSkip := bind_skipRun isLineEnd hPaired hCode
    isSeparator_of_isLineEnd hPaired.place
    fun t t' _ => hMirrors t t'
  exact hSkip.of_eq rfl rfl

/- The next lexemes if they are of a kind, or nothing. -/
theorem bind_eat
    {f g : Option Lexeme → Parse β}
    {kind : Kind}
    (hPaired : Paired ds place s s')
    (hCode : ds.isCode = true)
    (hHeads : Heads s.rest s'.rest)
    (hKind : kind.isOfStatements = true)
    (hSome : ∀ l l' t t', l.kind = kind → l.Same l' →
      Paired ds (Matches ⟨kind, true⟩) t t' →
        Mirrors deep post' (f (some l)) (g (some l')) t t')
    (hNone : (∀ l, s.rest.head? = some l → l.kind ≠ kind) →
      Mirrors deep post' (f none) (g none) s s') :
    Mirrors deep post' (Parse.eat kind >>= f)
      (Parse.eat kind >>= g) s s' := by
  generalize hRest : s.rest = ms at *
  generalize hRest' : s'.rest = ms' at *
  cases hHeads with
  | nil =>
      apply bind_eq _ _ (hNone (by simp))
      · exact eat_of_ne (by simp [hRest])
      · exact eat_of_ne (by simp [hRest'])
  | @cons l l' ls ls' hSame hMore =>
      by_cases hFound : l.kind = kind
      · subst hFound
        apply bind_eq (eat_of_cons hRest rfl)
          (eat_of_cons hRest' hSame.kind.symm)
        apply hSome l l' _ _ rfl hSame
        exact hPaired.take_statement hCode hRest hRest' hKind hMore
      · apply bind_eq _ _ (hNone (by simpa using hFound))
        · exact eat_of_ne (by simpa [hRest] using hFound)
        · exact eat_of_ne
            (by simpa [hRest', ← hSame.kind] using hFound)

------------------------------------------------------------
-- Wanting lexemes
------------------------------------------------------------

/- What stands in for something else is an error. -/
theorem bind_failure
    {f : Node → Parse β}
    [∀ e, Retains (f e)]
    {q : Parse β}
    (fault : ParseFault)
    (errorSpan nodeSpan : Span)
    (hPaired : Paired ds place s s') :
    Mirrors deep post' (Parse.failure fault errorSpan nodeSpan >>= f)
      q s s' :=
  bind_of_fails hPaired fun hClean => errors_report_ne fault _ hClean

theorem bind_errorNode
    {f : Node → Parse β}
    [∀ e, Retains (f e)]
    {q : Parse β}
    (fault : ParseFault)
    (hPaired : Paired ds place s s') :
    Mirrors deep post' (Parse.errorNode fault >>= f) q s s' :=
  bind_of_fails hPaired (fails_errorNode fault)

theorem bind_wantedNode
    {f : Node → Parse β}
    [∀ e, Retains (f e)]
    {q : Parse β}
    (wanted : Wanted)
    (hPaired : Paired ds place s s') :
    Mirrors deep post' (Parse.wantedNode wanted >>= f) q s s' :=
  bind_of_fails hPaired (fails_wantedNode wanted)

theorem errorNode
    {post : Post Node}
    {q : Parse Node}
    (fault : ParseFault)
    (hPaired : Paired ds place s s') :
    Mirrors deep post (Parse.errorNode fault) q s s' :=
  of_fails hPaired (fails_errorNode fault)

theorem wantedNode
    {post : Post Node}
    {q : Parse Node}
    (wanted : Wanted)
    (hPaired : Paired ds place s s') :
    Mirrors deep post (Parse.wantedNode wanted) q s s' :=
  of_fails hPaired (fails_wantedNode wanted)

end Mirrors

/- Two lexemes of a kind that were taken, right before what is left. -/
def took
    (ds : Nest)
    (kind : Kind) : Post (Except Node Lexeme)
| .ok l, .ok l', s, s' =>
    l.kind = kind ∧ l.Same l' ∧
      Paired ds (Matches ⟨kind, true⟩) s s'
| _, _, _, _ => False

namespace Mirrors

variable {kind : Kind}
variable {p q : Parse α}

theorem expect
    (wanted : Wanted)
    (hPaired : Paired ds Heads s s')
    (hCode : ds.isCode = true)
    (hKind : kind.isOfStatements = true) :
    Mirrors deep (took ds kind) (Parse.expect kind wanted)
      (Parse.expect kind wanted) s s' := by
  apply bind_eat hPaired hCode hPaired.place hKind
  · intro l l' t t' hFound hSame hPaired'
    exact pure ⟨hFound, hSame, hPaired'⟩
  · intro _
    exact bind_wantedNode wanted hPaired

theorem isOfStatements_closer
    (closer : Closer) :
    closer.kind.isOfStatements = true := by
  cases closer with
  | bracket b => cases b <;> rfl
  | blockEnd => rfl

theorem endsOperand_closer
    (closer : Closer) :
    closer.kind.endsOperand = true := by
  cases closer with
  | bracket b => rfl
  | blockEnd => rfl

theorem expectClosing
    (closer : Closer)
    (opened opened' : Span)
    (hPaired : Paired ds Loose s s')
    (hCode : ds.isCode = true) :
    Mirrors deep (took ds closer.kind)
      (Parse.expectClosing closer opened)
      (Parse.expectClosing closer opened') s s' := by
  apply bind_skipLineEnds hPaired hCode
  intro t t' hHeads
  apply bind_peek
  have hPlace := hHeads.place
  generalize hRest : t.rest = ms at *
  generalize hRest' : t'.rest = ms' at *
  cases hPlace with
  | nil =>
      exact bind_failure _ opened opened hHeads
  | cons hSame hMore =>
      exact expect _ hHeads hCode (isOfStatements_closer closer)

/- What closes a construct is right behind what it holds. -/
theorem close
    {items items' : List Node}
    (closer : Closer)
    (opened opened' : Span)
    (hPaired : Paired ds Loose s s')
    (hCode : ds.isCode = true)
    (hItems : Alike items items') :
    Mirrors deep (alike ds Tight) (Parse.close closer opened items)
      (Parse.close closer opened' items') s s' := by
  have hFirst := @expectClosing deep ds s s' closer opened opened'
    hPaired hCode
  apply hFirst.bind_of_retains
  · intro r
    cases r <;> infer_instance
  · intro r
    cases r <;> infer_instance
  · rintro (e | l) (e' | l') t t' hTook
    · cases hTook
    · cases hTook
    · cases hTook
    · apply pure
      refine ⟨Alike.mk hItems rfl, hTook.2.2.mono fun hMatches => ?_⟩
      exact hMatches.tight_of_endsOperand (endsOperand_closer closer)

------------------------------------------------------------
-- Parts of the state
------------------------------------------------------------

/- It does not matter how many expressions are being parsed. -/
theorem nested
    [Placed α]
    (hPaired : Paired ds place s s')
    (hMirrors : ∀ t t', Paired ds place t t' →
      Mirrors deep (alike es place') p q t t') :
    Mirrors deep (alike es place') (Parse.nested p)
      (Parse.nested q) s s' := by
  have hEntered : Paired ds place s.enter s'.enter :=
    hPaired.congr rfl rfl hPaired.poisoned rfl rfl hPaired.poisoned'
  rcases hMirrors _ _ hEntered with hEscapes | hPost
  · exact .inl hEscapes
  · refine .inr ⟨hPost.1, ?_⟩
    exact hPost.2.congr rfl rfl hPost.2.poisoned rfl rfl
      hPost.2.poisoned'

/- Statements apart start and end without poison. -/
theorem isolated
    [Placed α]
    (hPaired : Paired ds place s s')
    (hMirrors : ∀ t t', Paired ds place t t' →
      Mirrors deep (alike es place') p q t t') :
    Mirrors deep (alike es place') (Parse.isolated p)
      (Parse.isolated q) s s' := by
  have hApart : Paired ds place { s with poisoned := false }
      { s' with poisoned := false } :=
    hPaired.congr rfl rfl rfl rfl rfl rfl
  rcases hMirrors _ _ hApart with hEscapes | hPost
  · exact .inl hEscapes
  · refine .inr ⟨hPost.1, ?_⟩
    exact hPost.2.congr rfl rfl hPaired.poisoned rfl rfl
      hPaired.poisoned'

end Mirrors

/-
  Parsers for expressions that keep together wherever an
  operand begins.
-/
def Mirrored
    (deep : Bool)
    (expr expr' : ExpressionParser) : Prop :=
  ∀ (ds : Nest) (precedence : Nat) (context : Context)
    (s s' : ParseState),
    ds.isCode = true →
      Paired ds Begins s s' →
        Mirrors deep (alike ds Tight) (expr precedence context)
          (expr' precedence context) s s'

end ElixirReader
