import ElixirReader.Proofs.Errors.Containers
import ElixirReader.Proofs.Lexer.Numbers

/-
  This file says what an error of the parser may have to do
  with a lexeme that the lexer has reported. Such a lexeme is
  blamed once more only where something else than an operand
  has to stand, or where expressions are nested too deeply. A
  part of the parser keeps to this if it starts at a place
  where what it complains about may stand.

  Key definitions include:
    * `Kind.awaitsOperand`
    * `Scanned`
    * `IsFair`
    * `Ready`
    * `Closable`
    * `Settled`
    * `Watched`
    * `Watches`
    * `Careful`

  Main declarations:
    * `Behind.settled`
    * `IsFair.of_covers`
    * `Watches.bind`
    * `Watches.wantedNode`
    * `Watches.expectClosing`
-/

namespace ElixirReader

open Parse

variable {α β : Type}
variable {all ls : List Lexeme}
variable {l : Lexeme}
variable {s s' : ParseState}

------------------------------------------------------------
-- Kinds
------------------------------------------------------------

/-
  The operators behind which nothing but an operand may
  stand. A range may be the whole operand, and behind the
  marks of structs and attributes there has to be a name.
-/
def Operator.awaitsOperand : Operator → Bool
| .range => false
| .struct => false
| .atSign => false
| _ => true

/- The kinds behind which nothing else may stand. -/
def Kind.awaitsOperand : Kind → Bool
| opening _ => true
| interpolationStart => true
| semicolon => true
| doubleColon => true
| word .do => true
| word .fn => true
| word .else => true
| word .after => true
| word .rescue => true
| word .catch => true
| operator o => o.awaitsOperand
| _ => false

/- The kinds that are in order and no part of a number. -/
def Kind.isApart
    (k : Kind) : Bool :=
  !k.isFaulty && !k.isNumberPart

/- The kinds of these that something else may follow. -/
def Kind.settles
    (k : Kind) : Bool :=
  k.isApart && !k.awaitsOperand

/- The text of a lexeme that a complaint quotes. -/
def ParseFault.found? : ParseFault → Option String
| .unexpectedToken found => some found
| .expected _ found => found
| _ => none

------------------------------------------------------------
-- Lexemes of a source
------------------------------------------------------------

/-
  Lexemes as they come from a source: none is empty, each is
  behind the one before it, and faulty digits touch a part of
  a number.
-/
structure Scanned
    (all : List Lexeme) : Prop where
  solid : ∀ l ∈ all, l.span.start < l.span.stop
  apart : all.Pairwise fun l m => l.span.stop ≤ m.span.start
  numbered : Lexeme.AreNumbered none all

/- A lexeme is told by its span. -/
theorem Scanned.eq_of_span_eq
    {front front' back back' : List Lexeme}
    {l' : Lexeme}
    (hScanned : Scanned all)
    (hSplit : all = front ++ l :: back)
    (hSplit' : all = front' ++ l' :: back')
    (hSpan : l.span = l'.span) :
    front = front' ∧ l = l' := by
  have hApart := hScanned.apart
  have hSolid := hScanned.solid
  clear hScanned
  induction front generalizing all front' with
  | nil =>
      cases front' with
      | nil =>
          rw [hSplit] at hSplit'
          exact ⟨rfl, (List.cons.inj hSplit').1⟩
      | cons m front' =>
          exfalso
          rw [hSplit] at hSplit' hApart hSolid
          rcases List.cons.inj hSplit' with ⟨rfl, rfl⟩
          have hLater := (List.pairwise_cons.mp hApart).1 l'
            (by simp)
          have hSize := hSolid l (by simp)
          rw [← hSpan] at hLater
          omega
  | cons k front ih =>
      cases front' with
      | nil =>
          exfalso
          rw [hSplit'] at hSplit hApart hSolid
          rcases List.cons.inj hSplit with ⟨rfl, rfl⟩
          have hLater := (List.pairwise_cons.mp hApart).1 l
            (by simp)
          have hSize := hSolid l' (by simp)
          rw [hSpan] at hLater
          omega
      | cons m front' =>
          rw [hSplit] at hSplit' hApart hSolid
          rcases List.cons.inj hSplit' with ⟨rfl, hTail⟩
          have hMore := ih rfl hTail
            (List.pairwise_cons.mp hApart).2
            (fun n hMem => hSolid n (List.mem_cons_of_mem k hMem))
          exact ⟨by rw [hMore.1], hMore.2⟩

/- A lexeme that was taken right before what is left. -/
structure Behind
    (all : List Lexeme)
    (l : Lexeme)
    (rest : List Lexeme) : Prop where
  scanned : Scanned all
  split : ∃ front, all = front ++ l :: rest

theorem Behind.mem
    {rest : List Lexeme}
    (hBehind : Behind all l rest) :
    l ∈ all := by
  rcases hBehind.split with ⟨front, rfl⟩
  simp

------------------------------------------------------------
-- Errors
------------------------------------------------------------

/-
  If an error has the span of a faulty lexeme, that is a
  character without a place, and the complaint is that
  something else has to stand there, where it may, or that
  expressions are nested too deeply.
-/
def IsFair
    (all : List Lexeme)
    (e : ParseError) : Prop :=
  ∀ front l back,
    all = front ++ l :: back →
      l.kind.isFaulty = true →
        e.span = l.span →
          l.kind = .badCharacter ∧
            (e.fault = .tooDeeplyNested ∨
              e.fault.found? = some l.text ∧
                ∃ p, front.getLast? = some p ∧
                  p.kind.awaitsOperand = false)

/- A span covers a lexeme that is in order. -/
def Covers
    (all : List Lexeme)
    (span : Span) : Prop :=
  ∃ m ∈ all,
    m.kind.isFaulty = false ∧
      span.start ≤ m.span.start ∧ m.span.stop ≤ span.stop

theorem Covers.merge
    {x : Span}
    (hCovers : Covers all x)
    (y : Span) :
    Covers all (x.merge y) := by
  rcases hCovers with ⟨m, hMem, hKind, hStart, hStop⟩
  refine ⟨m, hMem, hKind, ?_, ?_⟩
  · rw [Span.start_merge]
    omega
  · rw [Span.stop_merge]
    omega

/- Such a span is not the one of a faulty lexeme. -/
theorem IsFair.of_covers
    {span : Span}
    (fault : ParseFault)
    (hScanned : Scanned all)
    (hCovers : Covers all span) :
    IsFair all ⟨fault, span⟩ := by
  rintro front l back hSplit hFaulty rfl
  exfalso
  rcases hCovers with ⟨m, hMem, hKind, hStart, hStop⟩
  have hApart := hScanned.apart
  have hSolid := hScanned.solid m hMem
  rw [hSplit] at hMem hApart
  rcases List.pairwise_append.mp hApart with
    ⟨_, hBack, hAcross⟩
  rcases List.mem_append.mp hMem with hFront | hRest
  · have hBefore := hAcross m hFront l List.mem_cons_self
    omega
  · rcases List.mem_cons.mp hRest with rfl | hLater
    · rw [hKind] at hFaulty
      cases hFaulty
    · have hAfter := (List.pairwise_cons.mp hBack).1 m hLater
      omega

theorem Covers.of_mem
    (hMem : l ∈ all)
    (hKind : l.kind.isFaulty = false) :
    Covers all l.span :=
  ⟨l, hMem, hKind, Nat.le_refl _, Nat.le_refl _⟩

theorem Kind.isFaulty_of_isApart
    {k : Kind}
    (hApart : k.isApart = true) :
    k.isFaulty = false := by
  unfold Kind.isApart at hApart
  simp only [Bool.and_eq_true, Bool.not_eq_true'] at hApart
  exact hApart.1

theorem Behind.covers
    {rest : List Lexeme}
    (hBehind : Behind all l rest)
    (hApart : l.kind.isApart = true) :
    Covers all l.span :=
  .of_mem hBehind.mem (Kind.isFaulty_of_isApart hApart)

------------------------------------------------------------
-- Places
------------------------------------------------------------

/- Faulty digits are not what comes next. -/
def NoDigits
    (rest : List Lexeme) : Prop :=
  ∀ l ms, rest = l :: ms → l.kind.isBadNumber = false

/- An operand may be expected here. -/
structure Ready
    (all rest : List Lexeme) : Prop where
  digits : NoDigits rest
  ended : rest = [] →
    ∀ l, all.getLast? = some l → l.kind.isFaulty = false

/- Here something else than an operand may be expected. -/
structure Closable
    (all rest : List Lexeme) : Prop where
  digits : NoDigits rest
  behind :
    ∀ l ms,
      rest = l :: ms →
        l.kind = .badCharacter →
          ∃ front p,
            all = front ++ p :: rest ∧
              p.kind.awaitsOperand = false

/- Anything may be expected here. -/
structure Settled
    (all rest : List Lexeme) : Prop
    extends Ready all rest, Closable all rest

variable {rest : List Lexeme}

theorem Kind.isBadNumber_of_isFaulty
    {k : Kind}
    (hKind : k.isFaulty = false) :
    k.isBadNumber = false := by
  unfold Kind.isBadNumber
  rw [hKind]
  rfl

theorem Kind.ne_badCharacter_of_isFaulty
    {k : Kind}
    (hKind : k.isFaulty = false) :
    k ≠ .badCharacter := by
  rintro rfl
  cases hKind

theorem Closable.of_head
    (hHead : ∀ l ms, rest = l :: ms → l.kind.isFaulty = false) :
    Closable all rest := by
  refine ⟨?_, ?_⟩
  · intro l ms hRest
    exact Kind.isBadNumber_of_isFaulty (hHead l ms hRest)
  · intro l ms hRest hKind
    exact absurd hKind
      (Kind.ne_badCharacter_of_isFaulty (hHead l ms hRest))

namespace Behind

/- Behind no part of a number there are no faulty digits. -/
theorem noDigits
    (hBehind : Behind all l rest)
    (hPart : l.kind.isNumberPart = false) :
    NoDigits rest := by
  intro m ms hRest
  rcases hBehind.split with ⟨front, hSplit⟩
  have hNumbered := hBehind.scanned.numbered
  rw [hSplit, hRest, ← List.singleton_append,
    ← List.append_assoc] at hNumbered
  rw [Bool.eq_false_iff]
  intro hBad
  have hBefore := (hNumbered.exists_before hBad).2
  simp [hPart] at hBefore

theorem ready
    (hBehind : Behind all l rest)
    (hApart : l.kind.isApart = true) :
    Ready all rest := by
  have hKind := hApart
  unfold Kind.isApart at hKind
  simp only [Bool.and_eq_true, Bool.not_eq_true'] at hKind
  refine ⟨hBehind.noDigits hKind.2, ?_⟩
  intro hNil m hLast
  rcases hBehind.split with ⟨front, hSplit⟩
  rw [hSplit, hNil, List.getLast?_concat] at hLast
  cases hLast
  exact hKind.1

theorem settled
    (hBehind : Behind all l rest)
    (hSettles : l.kind.settles = true) :
    Settled all rest := by
  unfold Kind.settles at hSettles
  simp only [Bool.and_eq_true, Bool.not_eq_true'] at hSettles
  refine ⟨hBehind.ready hSettles.1, ?_⟩
  intro m ms hRest hKind
  rcases hBehind.split with ⟨front, hSplit⟩
  exact ⟨front, l, hSplit, hSettles.2⟩

end Behind

------------------------------------------------------------
-- Watched states
------------------------------------------------------------

/-
  The lexemes that are left are the last of all of them, and
  the errors so far are fair. Nothing is told of a run that
  gave up a loop.
-/
structure Watched
    (all : List Lexeme)
    (s : ParseState) : Prop where
  scanned : Scanned all
  rest : s.rest <:+ all
  last : s.last = (all.getLast?.map Lexeme.span).getD Span.none
  errors : s.cutShort = false → ∀ e ∈ s.errors, IsFair all e

/- The next error will be noted. -/
def Live
    (s : ParseState) : Prop :=
  s.poisoned = false ∧ s.cutShort = false

theorem not_live_of_poisoned
    (hPoisoned : s.poisoned = true) :
    ¬ Live s := by
  rintro ⟨hClean, _⟩
  rw [hPoisoned] at hClean
  cases hClean

namespace Watched

/- Only what is left and the errors matter. -/
theorem congr
    (hWatched : Watched all s)
    (hRest : s'.rest = s.rest)
    (hLast : s'.last = s.last)
    (hErrors : s'.errors = s.errors)
    (hCut : s'.cutShort = false → s.cutShort = false) :
    Watched all s' := by
  refine ⟨hWatched.scanned, ?_, ?_, ?_⟩
  · rw [hRest]
    exact hWatched.rest
  · rw [hLast]
    exact hWatched.last
  · intro hWhole
    rw [hErrors]
    exact hWatched.errors (hCut hWhole)

theorem advance
    (hWatched : Watched all s)
    (k : Nat) :
    Watched all (s.advance k) :=
  ⟨hWatched.scanned,
    (List.drop_suffix k s.rest).trans hWatched.rest,
    hWatched.last, hWatched.errors⟩

theorem report
    {fault : ParseFault}
    {span : Span}
    (hWatched : Watched all s)
    (hFair : Live s → IsFair all ⟨fault, span⟩) :
    Watched all (s.report fault span) := by
  unfold ParseState.report
  split
  · exact hWatched
  · rename_i hPoisoned
    refine ⟨hWatched.scanned, hWatched.rest, hWatched.last, ?_⟩
    intro hWhole e hError
    rcases List.mem_append.mp hError with hOld | hNew
    · exact hWatched.errors hWhole e hOld
    · cases List.mem_singleton.mp hNew
      exact hFair ⟨by simpa using hPoisoned, hWhole⟩

/- The lexeme in front of what is left, once it is taken. -/
theorem behind
    {ms : List Lexeme}
    (hWatched : Watched all s)
    (hRest : s.rest = l :: ms) :
    Behind all l ms := by
  rcases hWatched.rest with ⟨front, hSplit⟩
  refine ⟨hWatched.scanned, front, ?_⟩
  rw [← hRest]
  exact hSplit.symm

/- The last of some lexemes that are taken. -/
theorem behind_advance
    {taken : List Lexeme}
    (hWatched : Watched all s)
    (hRest : s.rest = taken ++ l :: rest) :
    Behind all l rest := by
  rcases hWatched.rest with ⟨front, hSplit⟩
  refine ⟨hWatched.scanned, front ++ taken, ?_⟩
  rw [← hSplit, hRest, List.append_assoc]

/- An error at the next lexeme. -/
theorem isFair_of_cons
    {ms : List Lexeme}
    {fault : ParseFault}
    (hWatched : Watched all s)
    (hRest : s.rest = l :: ms)
    (hKind : l.kind.isBadNumber = false)
    (hFault : l.kind = .badCharacter →
      fault = .tooDeeplyNested ∨
        fault.found? = some l.text ∧
          ∃ front p, all = front ++ p :: s.rest ∧
            p.kind.awaitsOperand = false) :
    IsFair all ⟨fault, l.span⟩ := by
  intro front' l' back hSplit' hFaulty hSpan
  rcases (hWatched.behind hRest).split with ⟨front, hSplit⟩
  rcases hWatched.scanned.eq_of_span_eq hSplit hSplit' hSpan with
    ⟨hFront, hSame⟩
  rw [← hSame] at hFaulty ⊢
  have hBad : l.kind = .badCharacter := by
    unfold Kind.isBadNumber at hKind
    rw [hFaulty] at hKind
    simpa using hKind
  refine ⟨hBad, ?_⟩
  rcases hFault hBad with hDeep | ⟨hFound, f, p, hAll, hAwaits⟩
  · exact .inl hDeep
  · refine .inr ⟨hFound, p, ?_, hAwaits⟩
    have hBoth : front ++ l :: ms = (f ++ [p]) ++ l :: ms := by
      rw [← hSplit, hAll, hRest, List.append_assoc]
      rfl
    rw [← hFront, List.append_cancel_right hBoth,
      List.getLast?_concat]

/- An error at the end of the source. -/
theorem isFair_of_nil
    {fault : ParseFault}
    (hWatched : Watched all s)
    (hLast : ∀ l, all.getLast? = some l →
      l.kind.isFaulty = false) :
    IsFair all ⟨fault, s.last⟩ := by
  intro front l back hSplit hFaulty hSpan
  exfalso
  cases hAll : all.getLast? with
  | none =>
      rw [List.getLast?_eq_none_iff] at hAll
      simp [hAll] at hSplit
  | some m =>
      have hLastSpan := hWatched.last
      rw [hAll] at hLastSpan
      rcases List.getLast?_eq_some_iff.mp hAll with
        ⟨front', hSplit'⟩
      have hSame :=
        (hWatched.scanned.eq_of_span_eq hSplit hSplit'
          (hSpan.symm.trans hLastSpan)).2
      rw [hSame, hLast m hAll] at hFaulty
      cases hFaulty

end Watched

------------------------------------------------------------
-- Parts of the parser
------------------------------------------------------------

/-
  A part that notes fair errors only. What it gives, and the
  place that it comes to, are told by `post`.
-/
def Watches
    (all : List Lexeme)
    (post : α → ParseState → Prop)
    (p : Parse α)
    (s : ParseState) : Prop :=
  Watched all s → Watched all (p s).2 ∧ post (p s).1 (p s).2

/- While the next error will be noted, a place is in order. -/
def reaches
    (place : List Lexeme → Prop)
    (_ : α)
    (s' : ParseState) : Prop :=
  Live s' → place s'.rest

/- An error was noted. -/
def noted
    (_ : α)
    (s' : ParseState) : Prop :=
  s'.poisoned = true

/- Statements end at a lexeme in order, or at the end. -/
def finishes
    (all : List Lexeme)
    (_ : α)
    (s' : ParseState) : Prop :=
  s'.cutShort = false → Closable all s'.rest

/- The lexeme of a kind, right before what is left, or an error. -/
def tookOrNoted
    (all : List Lexeme)
    (kind : Kind) :
    Except Node Lexeme → ParseState → Prop
| .ok l, s' => l.kind = kind ∧ Behind all l s'.rest
| .error _, s' => s'.poisoned = true

namespace Watches

variable {post : α → ParseState → Prop}
variable {post' : β → ParseState → Prop}
variable {place : List Lexeme → Prop}
variable {p q : Parse α}
variable {f : α → Parse β}

theorem of_eq
    (hWatches : Watches all post q s)
    (hEq : p s = q s) :
    Watches all post p s := by
  unfold Watches
  rw [hEq]
  exact hWatches

theorem of_watched
    (hWatches : Watched all s → Watches all post p s) :
    Watches all post p s :=
  fun hWatched => hWatches hWatched hWatched

theorem pure
    {r : α}
    (hPost : post r s) :
    Watches all post (pure r) s :=
  fun hWatched => ⟨hWatched, hPost⟩

theorem mono
    {weaker : α → ParseState → Prop}
    (hWatches : Watches all post p s)
    (hPost : ∀ r s', Watched all s' → post r s' → weaker r s') :
    Watches all weaker p s := by
  intro hWatched
  rcases hWatches hWatched with ⟨hWatched', hTold⟩
  exact ⟨hWatched', hPost _ _ hWatched' hTold⟩

/- One part behind another. -/
theorem bind
    (hFirst : Watches all post p s)
    (hSecond : ∀ r s', post r s' → Watches all post' (f r) s') :
    Watches all post' (p >>= f) s := by
  intro hWatched
  rcases hFirst hWatched with ⟨hWatched', hPost⟩
  rw [Parse.bind_apply]
  exact hSecond _ _ hPost hWatched'

/- Behind an error any place will do. -/
theorem reaches_of_noted
    (hNoted : Watches all noted p s) :
    Watches all (reaches place) p s :=
  hNoted.mono fun _ _ _ hPoisoned hLive =>
    absurd hLive (not_live_of_poisoned hPoisoned)

/- Parts that only look at the state. -/
theorem bind_rest
    {f : List Lexeme → Parse β}
    (hWatches : Watches all post' (f s.rest) s) :
    Watches all post' (Parse.rest >>= f) s :=
  hWatches.of_eq rfl

theorem bind_peek
    {f : Option Lexeme → Parse β}
    (hWatches : Watches all post' (f s.rest.head?) s) :
    Watches all post' (peek >>= f) s :=
  hWatches.of_eq rfl

theorem bind_isAt
    {f : Bool → Parse β}
    {kind : Kind}
    (hWatches : Watches all post'
      (f (s.rest.head?.any (·.kind == kind))) s) :
    Watches all post' (isAt kind >>= f) s :=
  hWatches.of_eq rfl

theorem bind_currentSpan
    {f : Span → Parse β}
    (hWatches : Watches all post' (f s.currentSpan) s) :
    Watches all post' (currentSpan >>= f) s :=
  hWatches.of_eq rfl

theorem bind_currentSpan_of_cons
    {f : Span → Parse β}
    {ms : List Lexeme}
    (hRest : s.rest = l :: ms)
    (hWatches : Watches all post' (f l.span) s) :
    Watches all post' (currentSpan >>= f) s := by
  apply bind_currentSpan
  unfold ParseState.currentSpan
  rw [hRest]
  exact hWatches

theorem bind_previousSpan
    {f : Span → Parse β}
    (hWatches : Watches all post' (f s.previousSpan) s) :
    Watches all post' (previousSpan >>= f) s :=
  hWatches.of_eq rfl

theorem bind_found
    {f : Option String → Parse β}
    (hWatches :
      Watches all post' (f (s.rest.head?.map Lexeme.describe)) s) :
    Watches all post' (found >>= f) s :=
  hWatches.of_eq rfl

/- A loop is given up at its bound. -/
theorem cutOff
    {r : α}
    (hPost : ∀ s' : ParseState, s'.cutShort = true → post r s') :
    Watches all post
      (do
        Parse.cutOff
        return r) s := by
  intro hWatched
  refine ⟨hWatched.congr rfl rfl rfl ?_, hPost _ rfl⟩
  intro hWhole
  cases hWhole

theorem reaches_cutOff
    {r : α} :
    Watches all (reaches place)
      (do
        Parse.cutOff
        return r) s := by
  apply cutOff
  rintro s' hCut ⟨_, hWhole⟩
  rw [hCut] at hWhole
  cases hWhole

------------------------------------------------------------
-- Taking lexemes
------------------------------------------------------------

theorem bind_skip
    {f : Unit → Parse β}
    (k : Nat)
    (hWatches : Watches all post' (f ()) (s.advance k)) :
    Watches all post' (Parse.skip k >>= f) s :=
  fun hWatched => hWatches (hWatched.advance k)

/- Take the next lexeme. -/
theorem bind_skip_one
    {f : Unit → Parse β}
    {ms : List Lexeme}
    (hRest : s.rest = l :: ms)
    (hWatches : ∀ s', s'.rest = ms → Behind all l s'.rest →
      Watches all post' (f ()) s') :
    Watches all post' (Parse.skip 1 >>= f) s := by
  intro hWatched
  have hTail : (s.advance 1).rest = ms :=
    (ParseState.take_one hRest).2
  apply hWatches (s.advance 1) hTail _ (hWatched.advance 1)
  rw [hTail]
  exact hWatched.behind hRest

/-
  Behind a run of lexemes of some kinds stands the last of
  them, unless there was none.
-/
theorem skipRun
    (p : Kind → Bool) :
    Watches all
      (fun _ s' =>
        (s'.rest = s.rest ∨
          ∃ l, p l.kind = true ∧ Behind all l s'.rest) ∧
        (Live s' → Live s) ∧ s'.cutShort = s.cutShort)
      (do Parse.skip (runLength p (← Parse.rest))) s := by
  intro hWatched
  refine ⟨hWatched.advance _, ?_, id, rfl⟩
  change s.rest.drop (runLength p s.rest) = s.rest ∨
    ∃ l, p l.kind = true ∧
      Behind all l (s.rest.drop (runLength p s.rest))
  have hSplit :=
    List.take_append_drop (runLength p s.rest) s.rest
  cases hLast : (s.rest.take (runLength p s.rest)).getLast? with
  | none =>
      left
      rw [List.getLast?_eq_none_iff.mp hLast] at hSplit
      exact hSplit
  | some l =>
      right
      rcases List.getLast?_eq_some_iff.mp hLast with
        ⟨front, hTaken⟩
      refine ⟨l, of_mem_take_runLength
        (List.mem_of_getLast? hLast), ?_⟩
      refine @Watched.behind_advance all l s _ front hWatched ?_
      rw [hTaken, List.append_assoc] at hSplit
      exact hSplit.symm

/- A place that newlines do not change. -/
theorem skipLineEnds
    (hPlace : Live s → place s.rest)
    (hLine : ∀ l ms, l.kind = .endOfLine → Behind all l ms →
      place ms) :
    Watches all (reaches place) Parse.skipLineEnds s := by
  apply (skipRun isLineEnd).mono
  rintro _ s' _ ⟨hSame | ⟨l, hKind, hBehind⟩, hLive, _⟩ hLive'
  · rw [hSame]
    exact hPlace (hLive hLive')
  · exact hLine l _ (eq_of_beq hKind) hBehind

theorem skipLineEnds_ready
    (hReady : Live s → Ready all s.rest) :
    Watches all (reaches (Ready all)) Parse.skipLineEnds s :=
  skipLineEnds hReady fun _ _ hKind hBehind =>
    hBehind.ready (by rw [hKind]; rfl)

theorem skipLineEnds_settled
    (hSettled : Live s → Settled all s.rest) :
    Watches all (reaches (Settled all)) Parse.skipLineEnds s :=
  skipLineEnds hSettled fun _ _ hKind hBehind =>
    hBehind.settled (by rw [hKind]; rfl)

/- The next lexeme if it is of a kind, or nothing. -/
theorem bind_eat
    {f : Option Lexeme → Parse β}
    {kind : Kind}
    (hSome : ∀ l s', l.kind = kind → Behind all l s'.rest →
      Watches all post' (f (some l)) s')
    (hNone : (∀ l, s.rest.head? = some l → l.kind ≠ kind) →
      Watches all post' (f none) s) :
    Watches all post' (Parse.eat kind >>= f) s := by
  intro hWatched
  rw [Parse.bind_apply]
  rcases head?_cases kind s with ⟨l, ms, hRest, hKind⟩ | hOther
  · rw [eat_of_cons hRest hKind]
    apply hSome l (s.advance 1) hKind _ (hWatched.advance 1)
    rw [(ParseState.take_one hRest).2]
    exact hWatched.behind hRest
  · rw [eat_of_ne hOther]
    exact hNone hOther hWatched

------------------------------------------------------------
-- Noting
------------------------------------------------------------

theorem poison :
    Watches all noted Parse.poison s :=
  fun hWatched => ⟨hWatched.congr rfl rfl rfl id, rfl⟩

theorem failure
    {fault : ParseFault}
    {errorSpan : Span}
    (nodeSpan : Span)
    (hFair : Watched all s → Live s →
      IsFair all ⟨fault, errorSpan⟩) :
    Watches all noted
      (Parse.failure fault errorSpan nodeSpan) s := by
  intro hWatched
  refine ⟨hWatched.report (hFair hWatched), ?_⟩
  exact poisoned_report _ _ _

/- An error at a span that covers a lexeme in order. -/
theorem failure_of_covers
    {errorSpan : Span}
    (fault : ParseFault)
    (nodeSpan : Span)
    (hCovers : Covers all errorSpan) :
    Watches all noted
      (Parse.failure fault errorSpan nodeSpan) s :=
  failure nodeSpan fun hWatched _ =>
    .of_covers fault hWatched.scanned hCovers

/- At the end of the source there is nothing to quote. -/
theorem errorNode_of_nil
    (fault : ParseFault)
    (hReady : Live s → Ready all s.rest)
    (hRest : s.rest = []) :
    Watches all noted (Parse.errorNode fault) s := by
  apply bind_currentSpan
  apply failure
  intro hWatched hLive
  unfold ParseState.currentSpan
  rw [hRest]
  exact hWatched.isFair_of_nil ((hReady hLive).ended hRest)

/- A complaint that quotes the next lexeme. -/
theorem failure_of_cons
    {fault : ParseFault}
    {ms : List Lexeme}
    (nodeSpan : Span)
    (hRest : s.rest = l :: ms)
    (hFault : fault.found? = some l.describe)
    (hClosable : Live s → Closable all s.rest) :
    Watches all noted (Parse.failure fault l.span nodeSpan)
      s := by
  apply failure
  intro hWatched hLive
  have hHere := hClosable hLive
  apply hWatched.isFair_of_cons hRest (hHere.digits l ms hRest)
  intro hKind
  refine .inr ⟨?_, hHere.behind l ms hRest hKind⟩
  rw [hFault]
  simp [Lexeme.describe, hKind]

theorem errorNode_of_cons
    {fault : ParseFault}
    {ms : List Lexeme}
    (hRest : s.rest = l :: ms)
    (hFault : fault.found? = some l.describe)
    (hClosable : Live s → Closable all s.rest) :
    Watches all noted (Parse.errorNode fault) s :=
  bind_currentSpan_of_cons hRest
    (failure_of_cons l.span hRest hFault hClosable)

/- A complaint about a lexeme in order. -/
theorem errorNode_of_isFaulty
    {ms : List Lexeme}
    (fault : ParseFault)
    (hRest : s.rest = l :: ms)
    (hKind : l.kind.isFaulty = false) :
    Watches all noted (Parse.errorNode fault) s := by
  apply bind_currentSpan_of_cons hRest
  apply failure
  intro hWatched _
  exact .of_covers _ hWatched.scanned
    (.of_mem (hWatched.behind hRest).mem hKind)

theorem errorNode_tooDeep
    (hReady : Live s → Ready all s.rest) :
    Watches all noted (Parse.errorNode .tooDeeplyNested) s := by
  cases hRest : s.rest with
  | nil => exact errorNode_of_nil _ hReady hRest
  | cons l ms =>
      apply bind_currentSpan_of_cons hRest
      apply failure
      intro hWatched hLive
      exact hWatched.isFair_of_cons hRest
        ((hReady hLive).digits l ms hRest) fun _ => .inl rfl

theorem wantedNode
    (wanted : Wanted)
    (hSettled : Live s → Settled all s.rest) :
    Watches all noted (Parse.wantedNode wanted) s := by
  apply bind_found
  cases hRest : s.rest with
  | nil =>
      exact errorNode_of_nil _
        (fun hLive => (hSettled hLive).toReady) hRest
  | cons l ms =>
      exact errorNode_of_cons hRest rfl
        fun hLive => (hSettled hLive).toClosable

theorem expect
    (kind : Kind)
    (wanted : Wanted)
    (hSettled : Live s → Settled all s.rest) :
    Watches all (tookOrNoted all kind) (Parse.expect kind wanted)
      s := by
  apply bind_eat
  · intro l s' hKind hBehind
    exact pure ⟨hKind, hBehind⟩
  · intro _
    apply (wantedNode wanted hSettled).bind
    intro e s' hNoted
    exact pure hNoted

theorem expectClosing
    {opened : Span}
    (closer : Closer)
    (hOpened : Covers all opened)
    (hClosable : Live s → Closable all s.rest) :
    Watches all (tookOrNoted all closer.kind)
      (Parse.expectClosing closer opened) s := by
  have hLines :
      Watches all (reaches (Closable all)) Parse.skipLineEnds
        s :=
    skipLineEnds hClosable fun l ms hKind hBehind =>
      (hBehind.settled (by rw [hKind]; rfl)).toClosable
  apply hLines.bind
  intro _ s₁ hHere
  apply bind_peek
  cases hRest : s₁.rest with
  | nil =>
      apply (failure_of_covers _ _ hOpened).bind
      intro e s₂ hNoted
      exact pure hNoted
  | cons l ms =>
      apply expect
      intro hLive
      have hPlace := hHere hLive
      refine ⟨⟨hPlace.digits, ?_⟩, hPlace.behind⟩
      intro hNil
      rw [hRest] at hNil
      cases hNil

theorem settles_closer
    (closer : Closer) :
    closer.kind.settles = true := by
  cases closer <;> rfl

theorem close
    {opened : Span}
    {items : List Node}
    (closer : Closer)
    (hOpened : Covers all opened)
    (hClosable : Live s → Closable all s.rest) :
    Watches all (reaches (Settled all))
      (Parse.close closer opened items) s := by
  apply (expectClosing closer hOpened hClosable).bind
  rintro (e | l) s₁ hFound
  · apply bind_previousSpan
    apply pure
    exact fun hLive => absurd hLive (not_live_of_poisoned hFound)
  · apply pure
    intro _
    apply hFound.2.settled
    rw [hFound.1]
    exact settles_closer closer

------------------------------------------------------------
-- Parts of the state
------------------------------------------------------------

/- Statements apart do not look at the poison around them. -/
theorem isolated
    {P : List Lexeme → Bool → Prop}
    (hWatches :
      Watches all (fun _ s' => P s'.rest s'.cutShort) p
        { s with poisoned := false }) :
    Watches all (fun _ s' => P s'.rest s'.cutShort)
      (Parse.isolated p) s := by
  intro hWatched
  rcases hWatches (hWatched.congr rfl rfl rfl id) with
    ⟨hWatched', hPost⟩
  exact ⟨hWatched'.congr rfl rfl rfl id, hPost⟩

/- Nor does it matter how many expressions are being parsed. -/
theorem nested
    (hWatches : Watches all (reaches place) p s.enter) :
    Watches all (reaches place) (Parse.nested p) s := by
  intro hWatched
  rcases hWatches (hWatched.congr rfl rfl rfl id) with
    ⟨hWatched', hPost⟩
  exact ⟨hWatched'.congr rfl rfl rfl id, hPost⟩

end Watches

/-
  A parser for expressions that notes fair errors only, and
  stops where anything may be expected.
-/
def Careful
    (all : List Lexeme)
    (expr : ExpressionParser) : Prop :=
  ∀ (precedence : Nat) (context : Context) (s : ParseState),
    (Live s → Ready all s.rest) →
      Watches all (reaches (Settled all))
        (expr precedence context) s

end ElixirReader
