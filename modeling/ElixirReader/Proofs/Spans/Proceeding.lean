import ElixirReader.Proofs.Spans.Laminar
import ElixirReader.Tree.Parts

/-
  This file relates the parts of the parser to the source that
  they take: a part goes on, in order, through the lexemes that
  are left, and what it gives can be told from the place that
  it comes to.

  Key definitions include:
    * `ParseState.reach`
    * `ParseState.Placed`
    * `Onward`
    * `Took`
    * `Proceeds`
    * `laid`
    * `Orderly`

  Main declarations:
    * `Onward.advance`
    * `Proceeds.bind`
    * `Proceeds.expectClosing`
    * `Proceeds.close`
-/

namespace ElixirReader

open Parse

variable {α β : Type}
variable {a : Nat}
variable {l : Lexeme}
variable {ls : List Lexeme}
variable {s s' s₁ : ParseState}

------------------------------------------------------------
-- Places
------------------------------------------------------------

namespace ParseState

/- The end of the lexeme taken last, or the start of the source. -/
def reach
    (s : ParseState) : Nat :=
  (s.before.map Span.stop).getD 0

/- The lexemes that are left lie in order behind those taken. -/
def Placed
    (s : ParseState) : Prop :=
  ∃ b, SideBySide s.reach (s.rest.map Lexeme.span) b

/- Lexemes that are taken lie before the place behind them. -/
theorem Placed.split
    (k : Nat)
    (hPlaced : s.Placed) :
    ∃ b,
      SideBySide s.reach ((s.rest.take k).map Lexeme.span)
          (s.advance k).reach ∧
        SideBySide (s.advance k).reach
          ((s.advance k).rest.map Lexeme.span) b := by
  rcases hPlaced with ⟨b, hSpans⟩
  rw [← List.take_append_drop k s.rest, List.map_append]
    at hSpans
  have hReach :
      (((s.rest.take k).map Lexeme.span).getLast?.map
          Span.stop).getD s.reach =
        (s.advance k).reach := by
    unfold ParseState.reach ParseState.advance
    rw [List.getLast?_map]
    cases (s.rest.take k).getLast? <;> rfl
  have hBehind := hSpans.behind
  rw [hReach] at hBehind
  exact ⟨b, hBehind⟩

end ParseState

/-
  A state with all its lexemes in order, behind another one.
  The lexeme that was taken last is the same, or lies behind
  the other one's place.
-/
structure Onward
    (s s' : ParseState) : Prop where
  placed : s'.Placed
  rest : s'.rest <:+ s.rest
  reach : s.reach ≤ s'.reach
  before :
    s'.before = s.before ∨
      ∃ x, s'.before = some x ∧ s.reach ≤ x.start

/- A lexeme that is the last one taken. -/
structure Took
    (l : Lexeme)
    (s s' : ParseState) : Prop where
  start : s.reach ≤ l.span.start
  le : l.span.start ≤ l.span.stop
  reach_eq : s'.reach = l.span.stop

theorem Took.of_onward
    (hOnward : Onward s s₁)
    (hTook : Took l s₁ s') :
    Took l s s' :=
  ⟨Nat.le_trans hOnward.reach hTook.start, hTook.le,
    hTook.reach_eq⟩

/- A lexeme that was taken lies before the place behind it. -/
theorem Took.holds
    (hTook : Took l s s') :
    Holds s.reach l.span [] s'.reach := by
  intro _
  exact ⟨hTook.start, Laid.nil hTook.le,
    Nat.le_of_eq hTook.reach_eq.symm⟩

namespace Onward

theorem refl
    (hPlaced : s.Placed) :
    Onward s s :=
  ⟨hPlaced, List.suffix_refl _, Nat.le_refl _, .inl rfl⟩

theorem trans
    (hFirst : Onward s s₁)
    (hSecond : Onward s₁ s') :
    Onward s s' := by
  refine ⟨hSecond.placed, hSecond.rest.trans hFirst.rest,
    Nat.le_trans hFirst.reach hSecond.reach, ?_⟩
  rcases hSecond.before with hSame | ⟨x, hBefore, hStart⟩
  · rw [hSame]
    exact hFirst.before
  · exact .inr
      ⟨x, hBefore, Nat.le_trans hFirst.reach hStart⟩

/- Only the lexemes that are left, and the last one, matter. -/
theorem of_eq
    (hPlaced : s.Placed)
    (hRest : s'.rest = s.rest)
    (hBefore : s'.before = s.before) :
    Onward s s' := by
  have hReach : s'.reach = s.reach := by
    unfold ParseState.reach
    rw [hBefore]
  refine ⟨?_, ⟨[], hRest⟩, Nat.le_of_eq hReach.symm,
    .inl hBefore⟩
  unfold ParseState.Placed
  rw [hReach, hRest]
  exact hPlaced

theorem advance
    (k : Nat)
    (hPlaced : s.Placed) :
    Onward s (s.advance k) := by
  rcases hPlaced.split k with ⟨b, hTaken, hLeft⟩
  refine ⟨⟨b, hLeft⟩, List.drop_suffix k s.rest, hTaken.le, ?_⟩
  unfold ParseState.advance
  cases hLast : (s.rest.take k).getLast? with
  | none => exact .inl rfl
  | some l =>
      right
      refine ⟨l.span, rfl, ?_⟩
      have hMem : l.span ∈ (s.rest.take k).map Lexeme.span :=
        List.mem_map_of_mem (List.mem_of_getLast? hLast)
      exact (hTaken.of_mem hMem).1

end Onward

/- The next lexeme, taken. -/
theorem took_of_cons
    (hPlaced : s.Placed)
    (hRest : s.rest = l :: ls) :
    Took l s (s.advance 1) := by
  rcases hPlaced with ⟨b, hSpans⟩
  rw [hRest] at hSpans
  refine ⟨hSpans.1, hSpans.2.1, ?_⟩
  unfold ParseState.reach ParseState.advance
  rw [hRest]
  rfl

theorem before_advance
    (hRest : s.rest = l :: ls) :
    (s.advance 1).before = some l.span := by
  unfold ParseState.advance
  rw [hRest]
  rfl

------------------------------------------------------------
-- Parts of the parser
------------------------------------------------------------

/-
  From lexemes in order a part comes to lexemes in order, and
  `post` tells about what it gives and the state behind it.
-/
def Proceeds
    (post : α → ParseState → Prop)
    (p : Parse α)
    (s : ParseState) : Prop :=
  s.Placed → Onward s (p s).2 ∧ post (p s).1 (p s).2

/- Nothing is told about what a part gives. -/
def anything
    (_ : α)
    (_ : ParseState) : Prop :=
  True

/-
  The trees in what a part gives lie between an offset and the
  place that the part comes to.
-/
def laid
    (view : α → List Node)
    (a : Nat)
    (r : α)
    (s' : ParseState) : Prop :=
  Fits a (view r) s'.reach

/- Trees lie in the span that comes with them, and it so. -/
def heldIn
    (view : α → List Node)
    (a : Nat)
    (r : α × Span)
    (s' : ParseState) : Prop :=
  Holds a r.2 (view r.1) s'.reach

/- The lexeme that was taken, or an error that stands in for it. -/
def TookOrError
    (s : ParseState) :
    Except Node Lexeme → ParseState → Prop
| .ok l, s' => Took l s s'
| .error e, _ => e.containsError = true

namespace Proceeds

variable {post : α → ParseState → Prop}
variable {post' : β → ParseState → Prop}
variable {p q : Parse α}
variable {f : α → Parse β}

theorem of_eq
    (hProceeds : Proceeds post q s)
    (hEq : p s = q s) :
    Proceeds post p s := by
  unfold Proceeds
  rw [hEq]
  exact hProceeds

/- The place that a part starts from may be asked for. -/
theorem of_placed
    (hProceeds : s.Placed → Proceeds post p s) :
    Proceeds post p s :=
  fun hPlaced => hProceeds hPlaced hPlaced

theorem pure
    {r : α}
    (hPost : post r s) :
    Proceeds post (pure r) s :=
  fun hPlaced => ⟨Onward.refl hPlaced, hPost⟩

theorem mono
    {weaker : α → ParseState → Prop}
    (hProceeds : Proceeds post p s)
    (hPost : ∀ r s', p s = (r, s') → Onward s s' →
      post r s' → weaker r s') :
    Proceeds weaker p s := by
  intro hPlaced
  rcases hProceeds hPlaced with ⟨hOnward, hTold⟩
  exact ⟨hOnward, hPost _ _ rfl hOnward hTold⟩

/- One part behind another. -/
theorem bind
    (hFirst : Proceeds post p s)
    (hSecond : ∀ r s', p s = (r, s') → Onward s s' →
      post r s' → Proceeds post' (f r) s') :
    Proceeds post' (p >>= f) s := by
  intro hPlaced
  rcases hFirst hPlaced with ⟨hOnward, hPost⟩
  rcases hSecond (p s).1 (p s).2 rfl hOnward hPost
    hOnward.placed with ⟨hOnward', hPost'⟩
  rw [Parse.bind_apply]
  exact ⟨hOnward.trans hOnward', hPost'⟩

/- Parts that only look at the state. -/
theorem bind_rest
    {f : List Lexeme → Parse β}
    (hProceeds : Proceeds post' (f s.rest) s) :
    Proceeds post' (rest >>= f) s :=
  hProceeds.of_eq rfl

theorem bind_peek
    {f : Option Lexeme → Parse β}
    (hProceeds : Proceeds post' (f s.rest.head?) s) :
    Proceeds post' (peek >>= f) s :=
  hProceeds.of_eq rfl

theorem bind_isAt
    {f : Bool → Parse β}
    {kind : Kind}
    (hProceeds : Proceeds post'
      (f (s.rest.head?.any (·.kind == kind))) s) :
    Proceeds post' (isAt kind >>= f) s :=
  hProceeds.of_eq rfl

theorem bind_currentSpan
    {f : Span → Parse β}
    (hProceeds : Proceeds post' (f s.currentSpan) s) :
    Proceeds post' (currentSpan >>= f) s :=
  hProceeds.of_eq rfl

theorem bind_currentSpan_of_cons
    {f : Span → Parse β}
    (hRest : s.rest = l :: ls)
    (hProceeds : Proceeds post' (f l.span) s) :
    Proceeds post' (currentSpan >>= f) s := by
  apply bind_currentSpan
  unfold ParseState.currentSpan
  rw [hRest]
  exact hProceeds

theorem bind_previousSpan
    {f : Span → Parse β}
    (hProceeds : Proceeds post' (f s.previousSpan) s) :
    Proceeds post' (previousSpan >>= f) s :=
  hProceeds.of_eq rfl

theorem bind_found
    {f : Option String → Parse β}
    (hProceeds : ∀ found, Proceeds post' (f found) s) :
    Proceeds post' (found >>= f) s :=
  (hProceeds _).of_eq rfl

/- What only notes something leaves the lexemes as they are. -/
theorem of_still
    (hRest : (p s).2.rest = s.rest)
    (hBefore : (p s).2.before = s.before)
    (hPost : post (p s).1 (p s).2) :
    Proceeds post p s :=
  fun hPlaced => ⟨Onward.of_eq hPlaced hRest hBefore, hPost⟩

------------------------------------------------------------
-- Taking lexemes
------------------------------------------------------------

theorem skip
    (k : Nat) :
    Proceeds anything (Parse.skip k) s :=
  fun hPlaced => ⟨Onward.advance k hPlaced, trivial⟩

/- Take the next lexeme. -/
theorem bind_skip_one
    {f : Unit → Parse β}
    (hRest : s.rest = l :: ls)
    (hProceeds : ∀ s', s'.rest = ls →
      s'.before = some l.span → Onward s s' → Took l s s' →
        Proceeds post' (f ()) s') :
    Proceeds post' (Parse.skip 1 >>= f) s := by
  intro hPlaced
  have hOnward := Onward.advance 1 hPlaced
  rcases hProceeds (s.advance 1) (ParseState.take_one hRest).2
      (before_advance hRest) hOnward
      (took_of_cons hPlaced hRest) hOnward.placed with
    ⟨hOnward', hPost⟩
  exact ⟨hOnward.trans hOnward', hPost⟩

theorem skipLineEnds :
    Proceeds anything Parse.skipLineEnds s :=
  bind_rest (skip _)

theorem skipSeparators :
    Proceeds anything Parse.skipSeparators s :=
  bind_rest (skip _)

theorem eat
    (kind : Kind) :
    Proceeds (fun found s' => ∀ l, found = some l → Took l s s')
      (Parse.eat kind) s := by
  rcases head?_cases kind s with ⟨l, ls, hRest, hKind⟩ | hNone
  · intro hPlaced
    rw [eat_of_cons hRest hKind]
    refine ⟨Onward.advance 1 hPlaced, ?_⟩
    intro m hSome
    cases hSome
    exact took_of_cons hPlaced hRest
  · intro hPlaced
    rw [eat_of_ne hNone]
    refine ⟨Onward.refl hPlaced, ?_⟩
    intro m hSome
    cases hSome

------------------------------------------------------------
-- Noting
------------------------------------------------------------

theorem poison :
    Proceeds anything Parse.poison s :=
  of_still rfl rfl trivial

/- A loop is given up at its bound. -/
theorem cutOff
    {r : α}
    (hPost : ∀ s' : ParseState, s'.reach = s.reach → post r s') :
    Proceeds post
      (do
        Parse.cutOff
        return r) s :=
  of_still rfl rfl (hPost _ rfl)

/- An error among the trees may lie anywhere. -/
theorem failure
    (fault : ParseFault)
    (errorSpan nodeSpan : Span) :
    Proceeds (fun n _ => n.containsError = true)
      (Parse.failure fault errorSpan nodeSpan) s := by
  have hState : (Parse.failure fault errorSpan nodeSpan s).2 =
    s.report fault errorSpan := rfl
  apply of_still
  · rw [hState]
    unfold ParseState.report
    split <;> rfl
  · rw [hState]
    unfold ParseState.report
    split <;> rfl
  · exact containsError_failure _ _

theorem errorNode
    (fault : ParseFault) :
    Proceeds (fun n _ => n.containsError = true)
      (Parse.errorNode fault) s :=
  bind_currentSpan (failure fault _ _)

theorem wantedNode
    (wanted : Wanted) :
    Proceeds (fun n _ => n.containsError = true)
      (Parse.wantedNode wanted) s :=
  bind_found fun _ => errorNode _

/- So it may where the trees should be laid. -/
theorem laid_of_containsError
    {p : Parse Node}
    (hError : Proceeds (fun n _ => n.containsError = true) p s) :
    Proceeds (laid nodeOf a) p s := by
  apply hError.mono
  intro n s' _ _ hContains
  exact Fits.of_hasError ((hasError_nodeOf n).mpr hContains)

theorem expect
    (kind : Kind)
    (wanted : Wanted) :
    Proceeds (TookOrError s) (Parse.expect kind wanted) s := by
  apply (eat kind).bind
  intro found s₁ _ hOnward hFound
  cases found with
  | some l => exact pure (hFound l rfl)
  | none =>
      apply (wantedNode wanted).bind
      intro e s₂ _ _ hError
      exact pure hError

theorem expectClosing
    (closer : Closer)
    (opened : Span) :
    Proceeds (TookOrError s) (Parse.expectClosing closer opened)
      s := by
  apply skipLineEnds.bind
  intro _ s₁ _ hOnward _
  apply bind_peek
  cases s₁.rest.head? with
  | none =>
      apply (failure _ opened opened).bind
      intro e s₂ _ _ hError
      exact pure hError
  | some l =>
      apply (expect closer.kind (.closer closer)).mono
      rintro (e | m) s₂ _ _ hFound
      · exact hFound
      · exact Took.of_onward hOnward hFound

/-
  A construct that is closed holds all that lies between its
  ends, also the trees before its items.
-/
theorem close
    (closer : Closer)
    (seen : List Node)
    {opened : Span}
    {items : List Node}
    (hOpened : opened.start ≤ opened.stop)
    (hItems : Fits opened.stop (seen ++ items) s.reach) :
    Proceeds (heldIn (fun ns => seen ++ ns) opened.start)
      (Parse.close closer opened items) s := by
  apply (expectClosing closer opened).bind
  rintro (e | l) s₁ _ hOnward hFound
  · apply bind_previousSpan
    apply pure
    intro hNone
    have hError : e.containsError = true := hFound
    simp [hError] at hNone
  · apply pure
    intro hNone
    have hTook : Took l s s₁ := hFound
    have hLaid := hItems hNone
    have hLe := hLaid.le
    have hStart := hTook.start
    have hStop := hTook.le
    have hReach := hTook.reach_eq
    simp only [Span.start_merge, Span.stop_merge]
    refine ⟨by omega, hLaid.mono (by omega) (by omega),
      by omega⟩

------------------------------------------------------------
-- Parts of the state
------------------------------------------------------------

/- Poison does not matter to what is told of places. -/
theorem isolated
    {P : α → Nat → Prop}
    (hProceeds :
      Proceeds (fun r s' => P r s'.reach) p
        { s with poisoned := false }) :
    Proceeds (fun r s' => P r s'.reach) (Parse.isolated p)
      s := by
  intro hPlaced
  rcases hProceeds hPlaced with ⟨hOnward, hPost⟩
  exact ⟨⟨hOnward.placed, hOnward.rest, hOnward.reach,
    hOnward.before⟩, hPost⟩

/- Nor does the number of expressions that are being parsed. -/
theorem nested
    {P : α → Nat → Prop}
    (hProceeds :
      Proceeds (fun r s' => P r s'.reach) p s.enter) :
    Proceeds (fun r s' => P r s'.reach) (Parse.nested p)
      s := by
  intro hPlaced
  rcases hProceeds hPlaced with ⟨hOnward, hPost⟩
  exact ⟨⟨hOnward.placed, hOnward.rest, hOnward.reach,
    hOnward.before⟩, hPost⟩

end Proceeds

/-
  A parser for expressions that goes on in order, and gives
  laminar trees of what it takes.
-/
def Orderly
    (expr : ExpressionParser) : Prop :=
  ∀ (precedence : Nat) (context : Context) (s : ParseState),
    Proceeds (laid nodeOf s.reach) (expr precedence context) s

end ElixirReader
